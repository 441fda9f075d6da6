import OtiKiosk.Commands.Build
import OtiKiosk.Commands.Locality

/-!
What the receiving threads do with what one `read` returns. Each socket has its
own callback; that of the command socket compares the id of the message with the
one `send_receive` waits for. What a callback does is modelled as the list of
what the other side, or the application, gets to see of it.
-/

namespace OtiKiosk

open Ascii Json

structure ReaderEvent where
  msgIndex : UInt8
  line1 : Bytes
  line2 : Bytes
  deriving DecidableEq

inductive Effect
  /-- The bytes are handed to `send_receive`. -/
  | response (resp : Bytes)
  /-- `send_to_kiosk` is called with an acknowledgement. It writes nothing while the command socket
  has no descriptor. -/
  | ack (text : Bytes)
  /-- The application's callback for completion events. -/
  | transactionComplete (resp : PaymentResponse)
  /-- The application's callback for reader events. -/
  | readerEvent (event : ReaderEvent)
  deriving DecidableEq

def workBufferSize : ℕ := 1024

/-- `work_buffer` after `_receive_raw`: what was read, the rest cleared. -/
def workBuffer (chunk : Bytes) : Bytes :=
  chunk ++ List.replicate (workBufferSize - chunk.length) nul

/-- Memory that is written before it is read: a local array, and the response from the last event. -/
structure Stale where
  strStatus : CharArray 32
  pmtResp : PaymentResponse

def ackTemplate : Bytes := ascii "\x7b\"jsonrpc\": \"2.0\", \"result\": true, \"id\": %d\x7d"

def ackText (evtId : ℤ) : Bytes := formatText ackTemplate [.int (BitVec.ofInt 32 evtId)]

/-- What `kiosk_msg_received` does with an event; `registered` says whether the application has a
callback for it. -/
def eventEffects (registered : Bool) : Option (ℤ × PaymentResponse) → List Effect
  | none => []
  | some (evtId, resp) =>
      .ack (ackText evtId) :: if registered then [.transactionComplete resp] else []

def kioskMsgReceived (registered : Bool) (stale : Stale) (expectedId : ℤ) (data : Bytes)
    (dataLen : ℕ) : List Effect :=
  if 0 ≤ expectedId ∧ parseId data dataLen = some expectedId then [.response (data.take dataLen)]
  else eventEffects registered
    (parseTransactionComplete data dataLen stale.strStatus stale.pmtResp).accepted

/-- A line of a reader event, as it stands in the text; an empty one if there is none. -/
def readerLine (params : Bytes) (paramsLen : ℕ) (path : Bytes) : Bytes :=
  let f := mjsonFind params paramsLen path
  if f.tok = .string then (params.drop (f.off + 1)).take (f.len - 2) else []

/-- What `reader_event_received` makes of a message. -/
def parseReaderEvent (data : Bytes) (dataLen : ℕ) : Option ReaderEvent :=
  if ¬methodIs data dataLen (ascii "ReaderMessageEvent") then none
  else
    let params := mjsonFind data dataLen (ascii "$.params")
    if params.tok ≠ .object then none
    else
      let sParams := data.drop params.off
      match mjsonGetNumber sParams params.len (ascii "$.index") with
      | none => none
      | some msgIdx =>
          if msgIdx.isNegative || msgIdx.exceeds 0xFF then none
          else
            some ⟨UInt8.ofNat msgIdx.toInt.toNat,
              readerLine sParams params.len (ascii "$.line1"),
              readerLine sParams params.len (ascii "$.line2")⟩

/-- `reader_event_received`; without a callback it returns before it parses anything. -/
def readerEventReceived (registered : Bool) (data : Bytes) (dataLen : ℕ) : List Effect :=
  if registered then ((parseReaderEvent data dataLen).map .readerEvent).toList else []

inductive Socket
  | commands | events
  deriving DecidableEq

def Socket.recvCb (registered : Bool) (stale : Stale) :
    Socket → ℤ → Bytes → ℕ → List Effect
  | .commands => kioskMsgReceived registered stale
  | .events => fun _ => readerEventReceived registered

/-- The inner loop of `_kiosk_comm_loop` on what the reads return, with the effects so far. The
application sets `_expected_id` as it likes, from what it has seen. -/
def kioskCommLoop (recvCb : ℤ → Bytes → ℕ → List Effect) (expectedId : List Effect → ℤ) :
    List Effect → List Bytes → List Effect
  | done, [] => done
  | done, chunk :: chunks =>
      kioskCommLoop recvCb expectedId
        (done ++ recvCb (expectedId done) (workBuffer chunk) chunk.length) chunks

/-! ### The bytes that were read are all that matters -/

/-- What a callback does with a message, wherever it lies. -/
def Socket.handle (registered : Bool) : Socket → ℤ → Bytes → List Effect
  | .commands => fun expectedId msg =>
      if 0 ≤ expectedId ∧ parseId msg msg.length = some expectedId then [.response msg]
      else eventEffects registered (acceptedCompletion msg)
  | .events => fun _ msg => readerEventReceived registered msg msg.length

theorem take_message {s msg : Bytes} (hs : msg <+: s) :
    s.take msg.length = msg.take msg.length := by
  rw [List.take_length]
  exact (List.prefix_iff_eq_take.mp hs).symm

theorem kioskMsgReceived_eq {s msg : Bytes} (hs : msg <+: s) (registered : Bool) (stale : Stale)
    (expectedId : ℤ) :
    kioskMsgReceived registered stale expectedId s msg.length =
      Socket.commands.handle registered expectedId msg := by
  have htake := take_message hs
  simp only [kioskMsgReceived, Socket.handle, parseId_congr htake, htake, List.take_length,
    parseTransactionComplete_accepted hs]

theorem readerLine_congr {s s' : Bytes} {len : ℕ} (hs : s.take len = s'.take len) {n : Bytes}
    (hn : IsName n) : readerLine s len (pathOf [n]) = readerLine s' len (pathOf [n]) := by
  have hnames : IsShallow [n] := .one hn
  have htext := found_text_congr hs hnames rfl
  have hinner : ∀ (t : Bytes) (off len : ℕ),
      (t.drop (off + 1)).take (len - 2) = (((t.drop off).take len).drop 1).take (len - 2) := by
    intro t off len
    rw [List.drop_take, List.drop_drop, List.take_take, Nat.min_eq_left (by omega)]
  simp only [readerLine, ← mjsonFind_congr hs hnames]
  rw [hinner s, hinner s', htext]

theorem path_index : ascii "$.index" = pathOf [ascii "index"] := by decide

theorem path_line1 : ascii "$.line1" = pathOf [ascii "line1"] := by decide

theorem path_line2 : ascii "$.line2" = pathOf [ascii "line2"] := by decide

theorem parseReaderEvent_congr {s s' : Bytes} {len : ℕ} (hs : s.take len = s'.take len) :
    parseReaderEvent s len = parseReaderEvent s' len := by
  have hparams : IsShallow [ascii "params"] := .one (by decide)
  have hindex : IsShallow [ascii "index"] := .one (by decide)
  have hfind := mjsonFind_congr hs hparams
  have htext := found_text_congr hs hparams rfl
  rw [← path_params] at hfind htext
  rw [hfind] at htext
  have hnumber := mjsonGetNumber_congr htext hindex
  have hline1 := readerLine_congr htext (n := ascii "line1") (by decide)
  have hline2 := readerLine_congr htext (n := ascii "line2") (by decide)
  rw [← path_index] at hnumber
  rw [← path_line1] at hline1
  rw [← path_line2] at hline2
  simp only [parseReaderEvent, methodIs_congr hs, hfind, hnumber, hline1, hline2]

theorem Socket.recvCb_eq (socket : Socket) (registered : Bool) (stale : Stale) (expectedId : ℤ)
    (chunk : Bytes) :
    socket.recvCb registered stale expectedId (workBuffer chunk) chunk.length =
      socket.handle registered expectedId chunk := by
  have hprefix : chunk <+: workBuffer chunk := List.prefix_append _ _
  cases socket with
  | commands => exact kioskMsgReceived_eq hprefix registered stale expectedId
  | events =>
      simp only [Socket.recvCb, Socket.handle, readerEventReceived,
        parseReaderEvent_congr (take_message hprefix)]

/-- **Leftovers.** Two memories that agree on the bytes of a message are parsed alike, also when a
number in them goes on after the message; so are the local arrays that happen to hold something. -/
theorem leftovers_ignored {s s' : Bytes} {len : ℕ} (hs : s.take len = s'.take len)
    (expectedCmdId : ℤ) {n : ℕ} (out : CharArray n) (strStatus strStatus' : CharArray 32)
    (pmtResp : PaymentResponse) (registered : Bool) :
    parseId s len = parseId s' len ∧
      parseRespResult s len expectedCmdId out = parseRespResult s' len expectedCmdId out ∧
      checkResponseOk s len expectedCmdId = checkResponseOk s' len expectedCmdId ∧
      parseGetStatus s len expectedCmdId = parseGetStatus s' len expectedCmdId ∧
      parseTransactionComplete s len strStatus pmtResp =
        parseTransactionComplete s' len strStatus' pmtResp ∧
      readerEventReceived registered s len = readerEventReceived registered s' len := by
  refine ⟨parseId_congr hs, parseRespResult_congr hs expectedCmdId out,
    checkResponseOk_congr hs expectedCmdId, parseGetStatus_congr hs expectedCmdId, ?_, ?_⟩
  · rw [parseTransactionComplete_congr hs]
    exact parseTransactionComplete_strStatus s' len strStatus strStatus' pmtResp
  · rw [readerEventReceived, readerEventReceived, parseReaderEvent_congr hs]

/-- A message that breaks off in a number, before the rest of two older ones. -/
theorem leftovers_ignored_number :
    parseId (ascii "\x7b\"id\": 12\x7d") 8 = parseId (ascii "\x7b\"id\": 1, \"result\": \"Ready\"\x7d") 8 :=
  (leftovers_ignored (by decide) 1 (.zero 32) (.zero 32) (.zero 32) .zero true).1

/-! ### Messages -/

/-- An approved payment, reported under this id. -/
def completionEvent (id : Bytes) : Value :=
  object [(ascii "method", .string (ascii "TransactionComplete")), (ascii "id", .number id),
    (ascii "params", object [(ascii "status", .string (ascii "OK")),
      (ascii "errorDescription", .string []), (ascii "errorCode", .number (ascii "0")),
      (ascii "authorizationDetails", object [(ascii "AmountAuthorized", .number (ascii "450")),
        (ascii "AmountRequested", .number (ascii "450")),
        (ascii "Transaction_Referance", .string (ascii "R1")), (ascii "PartialPan", .string []),
        (ascii "CardType", .string []), (ascii "Card_ID", .string []),
        (ascii "CardToken", .string [])])])]

def readyAnswer : Value :=
  object [(ascii "jsonrpc", .string (ascii "2.0")), (ascii "result", .string (ascii "Ready")),
    (ascii "id", .number (ascii "1"))]

end OtiKiosk
