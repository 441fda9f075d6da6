import OtiKiosk.Commands.Types

/-!
The parsers of `kiosk_commands.c`. A message is a stretch of memory and a
length. Outputs the C code writes through pointers are returned: where a parser
can fail after writing, it returns what it wrote in that case too.
-/

namespace OtiKiosk

open Ascii

/-- `parse_id`; nothing when it returns an error. -/
def parseId (json : Bytes) (len : ℕ) : Option ℤ :=
  (mjsonGetNumber json len (ascii "$.id")).map Double.toInt

/-- `parse_resp_result`, with the buffer it decodes into. -/
def parseRespResult {n : ℕ} (json : Bytes) (len : ℕ) (expectedCmdId : ℤ) (out : CharArray n) :
    KioskRet × CharArray n :=
  match parseId json len with
  | none => (.parsingError, out)
  | some id =>
      if id ≠ expectedCmdId then (.parsingError, out)
      else
        let (written, ret) := mjsonGetString json len (ascii "$.result") n
        match ret with
        | none => (.parsingError, out.write written)
        | some 0 => (.parsingError, out.write written)
        | some (_ + 1) => (.ok, out.write written)

def checkResponseOk (json : Bytes) (len : ℕ) (expectedCmdId : ℤ) : KioskRet :=
  match parseId json len with
  | none => .parsingError
  | some id =>
      if id ≠ expectedCmdId then .parsingError
      else if (mjsonFind json len (ascii "$.error")).tok = .object then .negativeResp
      else
        match mjsonGetBool json len (ascii "$.result") with
        | none => .parsingError
        | some val => if val then .ok else .negativeResp

/-- The texts of a status, as `parse_get_status` compares them. -/
def kioskStatusTexts : List (Bytes × KioskStatus) :=
  [(ascii "Ready", .ready), (ascii "PaymentTransaction", .transaction), (ascii "Update", .update),
    (ascii "Unconfirmed", .unconfirmed), (ascii "NotReady", .notReady),
    (ascii "NoReader", .noReader), (ascii "NoTerminalId", .noTerminalId)]

/-- `parse_get_status`; the status is written on success only. -/
def parseGetStatus (json : Bytes) (len : ℕ) (expectedCmdId : ℤ) : KioskRet × Option KioskStatus :=
  let (ret, buff) := parseRespResult json len expectedCmdId (.zero 32)
  if ret ≠ .ok then (ret, none)
  else
    match kioskStatusTexts.lookup buff.str with
    | some status => (.ok, some status)
    | none => (.parsingError, none)

/-- `strcmp`, as the test whether two strings differ; there is none behind a null pointer. -/
def strcmp (s : Bytes) (t : Option Bytes) : Option Bool := t.map fun t => s ≠ t

/-- `parse_cancel_resp`; nothing when it passes a null pointer to `strcmp`. The second and the third
literal are compared with 0, and what is passed is the outcome of that. -/
def parseCancelResp (json : Bytes) (len : ℕ) (expectedCmdId : ℤ) : Option KioskRet :=
  let (ret, buff) := parseRespResult json len expectedCmdId (.zero 32)
  if ret ≠ .ok then some ret
  else
    (strcmp buff.str (some (ascii "Ok"))).bind fun differs =>
      if !differs then some .ok
      else
        (strcmp buff.str none).bind fun differs =>
          if differs then some .ok
          else
            (strcmp buff.str none).bind fun differs =>
              if differs then some .negativeResp else some ret

/-! ### Fields -/

inductive JsonOut (S : Type)
  | string (n : ℕ) (get : S → CharArray n) (set : S → CharArray n → S)
  | bool (set : S → Bool → S)
  | int (set : S → ℤ → S)
  | double (set : S → Double → S)

structure JsonField (S : Type) where
  jsonPath : Bytes
  out : JsonOut S

variable {S : Type}

/-- One turn of the loop of `parse_json_fields`: the record, and whether to go on. -/
def parseJsonField (json : Bytes) (len : ℕ) (field : JsonField S) (s : S) : S × Bool :=
  match field.out with
  | .string n get set =>
      let (written, ret) := mjsonGetString json len field.jsonPath (n - 1)
      let out := (get s).write written
      match ret with
      | none => (set s out, false)
      | some l => (set s (out.terminate l), true)
  | .bool set =>
      match mjsonGetBool json len field.jsonPath with
      | none => (s, false)
      | some bv => (set s bv, true)
  | .int set =>
      match mjsonGetNumber json len field.jsonPath with
      | none => (s, false)
      | some dv => if dv.IsInt then (set s dv.toInt, true) else (s, false)
  | .double set =>
      match mjsonGetNumber json len field.jsonPath with
      | none => (s, false)
      | some dv => (set s dv, true)

def parseJsonFields (json : Bytes) (len : ℕ) : List (JsonField S) → S → S × Bool
  | [], s => (s, true)
  | field :: fields, s =>
      match parseJsonField json len field s with
      | (s', false) => (s', false)
      | (s', true) => parseJsonFields json len fields s'

/-! ### Completion events -/

structure CompletionOut where
  strStatus : CharArray 32
  pmtResp : PaymentResponse

def responseString {n : ℕ} (get : PaymentResponse → CharArray n)
    (set : PaymentResponse → CharArray n → PaymentResponse) : JsonOut CompletionOut :=
  .string n (fun o => get o.pmtResp) fun o a => { o with pmtResp := set o.pmtResp a }

def completionFields : List (JsonField CompletionOut) :=
  [⟨ascii "$.status", .string 32 (·.strStatus) fun o a => { o with strStatus := a }⟩,
    ⟨ascii "$.errorDescription",
      responseString (·.errorMessage) fun r a => { r with errorMessage := a }⟩,
    ⟨ascii "$.errorCode",
      .int fun o v => { o with pmtResp := { o.pmtResp with errorCode := v } }⟩,
    ⟨ascii "$.authorizationDetails.AmountAuthorized",
      .double fun o v => { o with pmtResp := { o.pmtResp with amountAuthorized := v } }⟩,
    ⟨ascii "$.authorizationDetails.AmountRequested",
      .double fun o v => { o with pmtResp := { o.pmtResp with amountRequested := v } }⟩,
    ⟨ascii "$.authorizationDetails.Transaction_Referance",
      responseString (·.transactionReference) fun r a => { r with transactionReference := a }⟩,
    ⟨ascii "$.authorizationDetails.PartialPan",
      responseString (·.partialPan) fun r a => { r with partialPan := a }⟩,
    ⟨ascii "$.authorizationDetails.CardType",
      responseString (·.cardType) fun r a => { r with cardType := a }⟩,
    ⟨ascii "$.authorizationDetails.Card_ID",
      responseString (·.cardId) fun r a => { r with cardId := a }⟩,
    ⟨ascii "$.authorizationDetails.CardToken",
      responseString (·.cardToken) fun r a => { r with cardToken := a }⟩]

def transactionStatusTexts : List (Bytes × TransactionStatus) :=
  [(ascii "OK", .ok), (ascii "Declined", .declined), (ascii "Error", .error),
    (ascii "Timeout", .timeout), (ascii "Cancelled", .cancelled), (ascii "Void", .voided),
    (ascii "LocalMifare", .localMifare)]

/-- The text of the `$.method` of a message, with its quotes. -/
def methodIs (json : Bytes) (len : ℕ) (name : Bytes) : Prop :=
  let f := mjsonFind json len (ascii "$.method")
  f.tok = .string ∧ f.len = name.length + 2 ∧ (json.drop f.off).take f.len = Json.quoted name

instance (json : Bytes) (len : ℕ) (name : Bytes) : Decidable (methodIs json len name) :=
  inferInstanceAs (Decidable (_ ∧ _))

structure CompletionResult where
  ret : KioskRet
  pmtResp : PaymentResponse
  id : Option ℤ

/-- `parse_transaction_complete`, called with a response of whatever contents; `strStatus` is what
its local array happens to hold. -/
def parseTransactionComplete (json : Bytes) (len : ℕ) (strStatus : CharArray 32)
    (pmtResp : PaymentResponse) : CompletionResult :=
  match parseId json len with
  | none => ⟨.parsingError, pmtResp, none⟩
  | some id =>
      if ¬methodIs json len (ascii "TransactionComplete") then ⟨.parsingError, .zero, some id⟩
      else
        let params := mjsonFind json len (ascii "$.params")
        if params.tok ≠ .object then ⟨.parsingError, .zero, some id⟩
        else
          match parseJsonFields (json.drop params.off) params.len completionFields
              ⟨strStatus, .zero⟩ with
          | (out, false) => ⟨.parsingError, out.pmtResp, some id⟩
          | (out, true) =>
              match transactionStatusTexts.lookup out.strStatus.str with
              | none => ⟨.parsingError, out.pmtResp, some id⟩
              | some status => ⟨.ok, { out.pmtResp with status := status }, some id⟩

end OtiKiosk
