import OtiKiosk.Client.Operations
import OtiKiosk.Commands.Identity

/-!
How the commands that are answered by a truth value classify the answer. The
reference reads the tree of the answer: an `error` object or a `false` result is
a refusal, a `true` result an agreement, everything else no answer at all.
-/

namespace OtiKiosk

open Ascii Json

/-- What an answer says. -/
def replyClass (reply : Located) : KioskRet :=
  match reply.member (ascii "error") with
  | some ⟨_, .node .curly _⟩ => .negativeResp
  | _ =>
      match reply.member (ascii "result") with
      | some ⟨_, .true⟩ => .ok
      | some ⟨_, .false⟩ => .negativeResp
      | _ => .parsingError

theorem replyClass_eq (reply : Located) :
    replyClass reply =
      if (Found.of (reply.member (ascii "error"))).tok = .object then .negativeResp
      else
        match (reply.member (ascii "result")).bind fun v => v.value.bool? with
        | none => .parsingError
        | some val => if val then .ok else .negativeResp := by
  have hresult : (match reply.member (ascii "result") with
      | some ⟨_, .true⟩ => .ok
      | some ⟨_, .false⟩ => .negativeResp
      | _ => .parsingError) =
      match (reply.member (ascii "result")).bind fun v => v.value.bool? with
        | none => KioskRet.parsingError
        | some val => if val then .ok else .negativeResp := by
    cases reply.member (ascii "result") with
    | none => rfl
    | some v =>
        obtain ⟨j, v⟩ := v
        cases v with
        | node b items => cases b <;> rfl
        | _ => rfl
  rw [← hresult, replyClass]
  cases reply.member (ascii "error") with
  | none => rfl
  | some v =>
      obtain ⟨j, v⟩ := v
      cases v with
      | node b items => cases b <;> rfl
      | _ => rfl

theorem Denotes.checkResponseOk_eq {s : Bytes} {len i : ℕ} {t : Value} (h : Denotes s len t i)
    (expectedCmdId : ℤ) :
    checkResponseOk s len expectedCmdId =
      if messageId ⟨i, t⟩ = some expectedCmdId then replyClass ⟨i, t⟩ else .parsingError := by
  obtain ⟨herror, -⟩ := h.find_member (n := ascii "error") (by decide)
  obtain ⟨hresult, -⟩ := h.find_member (n := ascii "result") (by decide)
  simp only [checkResponseOk, h.parseId_eq, path_error, path_result, herror,
    mjsonGetBool_of hresult, replyClass_eq]
  cases messageId ⟨i, t⟩ with
  | none => rfl
  | some id =>
      by_cases hid : id = expectedCmdId
      · subst hid
        rw [if_pos rfl]
        exact if_neg (not_not_intro rfl)
      · simp [hid]

theorem respBuff_take (resp : Bytes) : (respBuff resp).take resp.length = resp.take resp.length := by
  rw [respBuff, List.take_left, List.take_length]

/-! ### The five commands -/

theorem booleanCommand_ok {template : Bytes} {args : List FormatArg} (expectedId : ℤ)
    {sendReceive : SendReceive} {resp : Bytes}
    (h : sendReceive (formatText template args) 128 500 = (.ok, resp)) :
    booleanCommand template args expectedId true sendReceive =
      checkResponseOk (respBuff resp) resp.length expectedId := by
  simp only [booleanCommand, buildCommand, if_true, h, ne_eq, not_true_eq_false, if_false]

inductive BooleanCommand
  | showMessage (line1 line2 : CString)
  | preAuthorize (params : PaymentParameters)
  | payTransaction (params : PaymentParameters)
  | confirmTransaction (amountCents feeCents productId : BitVec 32) (transactionReference : CString)
  | voidTransaction (transactionReference : CString)
  deriving DecidableEq

namespace BooleanCommand

def run : BooleanCommand → Bool → SendReceive → KioskRet
  | .showMessage line1 line2 => OtiKiosk.showMessage line1 line2
  | .preAuthorize params => OtiKiosk.preAuthorize params
  | .payTransaction params => OtiKiosk.payTransaction params
  | .confirmTransaction amount fee product reference =>
      OtiKiosk.confirmTransaction amount fee product reference
  | .voidTransaction reference => OtiKiosk.voidTransaction reference

def text : BooleanCommand → Bytes
  | .showMessage line1 line2 => formatText showMessageTemplate [.str line1, .str line2]
  | .preAuthorize params => formatText preAuthorizeTemplate (paymentArgs params)
  | .payTransaction params => formatText payTransactionTemplate (paymentArgs params)
  | .confirmTransaction amount fee product reference =>
      formatText confirmTransactionTemplate [.int amount, .int fee, .int product, .str reference]
  | .voidTransaction reference => formatText voidTransactionTemplate [.str reference]

def templateId : BooleanCommand → ℤ
  | .showMessage _ _ => 2
  | .preAuthorize _ => 6
  | .payTransaction _ => 7
  | .confirmTransaction _ _ _ _ => 8
  | .voidTransaction _ => 9

def checkedId : BooleanCommand → ℤ
  | .payTransaction _ => 6
  | cmd => cmd.templateId

def IsPayTransaction : BooleanCommand → Prop
  | .payTransaction _ => True
  | _ => False

theorem run_eq (cmd : BooleanCommand) {sendReceive : SendReceive} {resp : Bytes}
    (h : sendReceive cmd.text 128 500 = (.ok, resp)) :
    cmd.run true sendReceive = checkResponseOk (respBuff resp) resp.length cmd.checkedId := by
  cases cmd <;> exact booleanCommand_ok _ h

/-- The id checked is that of the template, except for one command. -/
theorem checkedId_eq_iff (cmd : BooleanCommand) :
    cmd.checkedId = cmd.templateId ↔ ¬cmd.IsPayTransaction := by
  cases cmd <;> simp [checkedId, templateId, IsPayTransaction]

/-- **Classification of answers.** When an answer with the id of the command comes back, the command
returns what the answer says, unless it is `PayTransaction`, which never does. -/
theorem run_eq_replyClass_iff (cmd : BooleanCommand) (sendReceive : SendReceive) (resp : Bytes)
    (hcmd : parseId cmd.text cmd.text.length = some cmd.templateId)
    (hsend : sendReceive cmd.text 128 500 = (.ok, resp))
    (hid : parseId resp resp.length = parseId cmd.text cmd.text.length) :
    (∃ t i, Denotes resp resp.length t i) ∧ ∀ t i, Denotes resp resp.length t i →
      (cmd.run true sendReceive = replyClass ⟨i, t⟩ ↔
        ¬cmd.IsPayTransaction ∨ replyClass ⟨i, t⟩ = .parsingError) := by
  rw [hcmd] at hid
  refine ⟨parseId_denotes hid, ?_⟩
  intro t i ht
  have hbuff : Denotes (respBuff resp) resp.length t i := ht.congr (respBuff_take resp).symm
  rw [ht.parseId_eq] at hid
  have hcheck : some cmd.templateId = some cmd.checkedId ↔ ¬cmd.IsPayTransaction := by
    rw [Option.some_inj, eq_comm, checkedId_eq_iff]
  rw [run_eq cmd hsend, hbuff.checkResponseOk_eq, hid]
  by_cases hpay : cmd.IsPayTransaction
  · simp [hcheck, hpay, eq_comm]
  · simp [hcheck, hpay]

def accepted : Value :=
  object [(ascii "jsonrpc", .string (ascii "2.0")), (ascii "result", .true),
    (ascii "id", .number (ascii "7"))]

theorem accepted_denotes : Denotes accepted.text accepted.text.length accepted 0 :=
  ⟨by decide +kernel, by decide +kernel, ⟨.curly, _, rfl⟩, ⟨[], [], nofun, rfl, by simp⟩, by simp⟩

def payment : PaymentParameters := ⟨450, 0, 0, 978, 10, false⟩

/-- A payment that the kiosk accepts is reported as an answer that cannot be parsed. -/
theorem payTransaction_accepted :
    parseId (payTransaction payment).text (payTransaction payment).text.length = some 7 ∧
      parseId accepted.text accepted.text.length = some 7 ∧
      Denotes accepted.text accepted.text.length accepted 0 ∧
      replyClass ⟨0, accepted⟩ = .ok ∧
      (payTransaction payment).run true (fun _ _ _ => (.ok, accepted.text)) = .parsingError :=
  ⟨by decide +kernel, by decide +kernel, accepted_denotes, by decide +kernel, by decide +kernel⟩

theorem payTransaction_eq_replyClass_iff :
    (payTransaction payment).run true (fun _ _ _ => (.ok, accepted.text)) =
        replyClass ⟨0, accepted⟩ ↔
      ¬(payTransaction payment).IsPayTransaction ∨ replyClass ⟨0, accepted⟩ = .parsingError :=
  (run_eq_replyClass_iff (payTransaction payment) (fun _ _ _ => (.ok, accepted.text))
    accepted.text (by decide +kernel) rfl (by decide +kernel)).2 accepted 0 accepted_denotes

end BooleanCommand

/-! ### Commands without arguments -/

theorem parseId_of_ok {n : ℕ} {json : Bytes} {len : ℕ} {expectedCmdId : ℤ} {out : CharArray n}
    (h : (parseRespResult json len expectedCmdId out).1 = .ok) :
    parseId json len = some expectedCmdId := by
  rw [parseRespResult] at h
  cases hid : parseId json len with
  | none =>
      rw [hid] at h
      cases h
  | some id =>
      by_cases hsame : id = expectedCmdId
      · rw [hsame]
      · simp only [hid, ne_eq, hsame, not_false_eq_true, if_true] at h
        cases h

theorem parseGetStatus_parseId {json : Bytes} {len : ℕ} {expectedCmdId : ℤ}
    (h : (parseGetStatus json len expectedCmdId).1 = .ok) :
    parseId json len = some expectedCmdId := by
  by_cases hresult : (parseRespResult json len expectedCmdId (.zero 32)).1 = .ok
  · exact parseId_of_ok hresult
  · simp only [parseGetStatus, ne_eq, hresult, not_false_eq_true, if_true] at h

theorem parseCancelResp_parseId {json : Bytes} {len : ℕ} {expectedCmdId : ℤ}
    (h : parseCancelResp json len expectedCmdId = some .ok) :
    parseId json len = some expectedCmdId := by
  by_cases hresult : (parseRespResult json len expectedCmdId (.zero 32)).1 = .ok
  · exact parseId_of_ok hresult
  · simp only [parseCancelResp, ne_eq, hresult, not_false_eq_true, if_true] at h
    exact absurd (Option.some.inj h) hresult

/-- `GetStatus` succeeds on an answer with its own id only. -/
theorem getStatus_parseId {sendReceive : SendReceive} (h : (getStatus sendReceive).1 = .ok) :
    ∃ resp, sendReceive getStatusCmd 128 500 = (.ok, resp) ∧ parseId resp resp.length = some 1 := by
  obtain ⟨⟨ret, resp⟩, hsend⟩ : ∃ r, sendReceive getStatusCmd 128 500 = r := ⟨_, rfl⟩
  rw [getStatus, hsend] at h
  by_cases hret : ret = .ok
  · subst hret
    refine ⟨resp, hsend, ?_⟩
    rw [← parseId_congr (respBuff_take resp)]
    exact parseGetStatus_parseId h
  · simp only [ne_eq, hret, not_false_eq_true, if_true] at h

/-- So does `CancelTransaction`, unless its parser does not return. -/
theorem cancelTransaction_parseId {sendReceive : SendReceive}
    (h : cancelTransaction sendReceive = some .ok) :
    ∃ resp, sendReceive cancelTransactionCmd 128 500 = (.ok, resp) ∧
      parseId resp resp.length = some 10 := by
  obtain ⟨⟨ret, resp⟩, hsend⟩ : ∃ r, sendReceive cancelTransactionCmd 128 500 = r := ⟨_, rfl⟩
  rw [cancelTransaction, hsend] at h
  by_cases hret : ret = .ok
  · subst hret
    refine ⟨resp, hsend, ?_⟩
    rw [← parseId_congr (respBuff_take resp)]
    exact parseCancelResp_parseId h
  · simp only [ne_eq, hret, not_false_eq_true, if_true] at h
    exact absurd (Option.some.inj h) hret

end OtiKiosk
