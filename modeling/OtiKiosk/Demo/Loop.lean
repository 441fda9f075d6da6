import OtiKiosk.CJson.Items
import OtiKiosk.Client.Replies
import OtiKiosk.Lib.Transition

/-!
The demo: the loop of `main`, with the WebSocket callback inside `lws_service`, and
`Transaction_Complete_Callback` on the thread of the library. A statement of
`main` that reads or writes a shared variable, or sends a command, is one step; the
callback stores the response, tests `cur_state` and writes `new_state` in three.
Both run in any order, the kiosk, the clients and the clock do what they like. A command
may return anything at any time: its answer may come late, and be taken for the answer
to the next one. Nor is every completion reported, as the library drops those that it
cannot parse or takes for answers.

Sleeping changes nothing, so it is no step: time passes between any two steps. What
is only printed is left out.
-/

namespace OtiKiosk

open Ascii Json

inductive DemoState
  | init | idle | trans | transComplete | message | invalid
  deriving DecidableEq

inductive MainPc
  | checkStatus | lostTest | lostCheck | lostInit | stateTest | assign
  | getKioskId | getKioskVersion | getReaderVersion | initIdle
  | showWelcome | idleExpiration
  | preAuthorize | preAuthorizeReturn
  | showFailed | startFailed
  | completeClear | completeJson | completeTest | showApproved | settle | showStatus | completeDone
  | messageExpiration
  | interruptTest | service | flagTest | setTrans | expirationTest | setIdle
  deriving DecidableEq

/-- The next step of `Transaction_Complete_Callback`; at `idle` it does not run. -/
inductive CallbackPc
  | idle | test | write
  deriving DecidableEq

inductive DemoEvent
  | sent (cmd : BooleanCommand)
  /-- `PreAuthorize` returned `KIOSK_RET_OK`. -/
  | accepted
  | completed (resp : PaymentResponse)
  | established (client : ℕ)
  | closed (client : ℕ)
  deriving DecidableEq

structure Demo where
  pc : MainPc
  curState : DemoState
  newState : DemoState
  lastStatus : KioskStatus
  lastPaymentResponse : PaymentResponse
  paymentStatus : Bool
  interrupted : Bool
  wsi : Option ℕ
  sendMessageFlag : Bool
  jsonMessage : Bytes
  timeStateExpiration : BitVec 32
  confirm : Bool
  callback : CallbackPc
  /-- The seconds of the monotonic clock. -/
  clock : ℕ
  /-- The clients that are connected. -/
  connected : List ℕ
  /-- The requests of `PreAuthorize` that are on their way to the kiosk. -/
  requested : ℕ
  /-- The transactions that the kiosk has started and that are not over. -/
  running : ℕ
  /-- What happened so far, the last event first. -/
  history : List DemoEvent

def getTimeSec (clock : ℕ) : BitVec 32 := BitVec.ofNat 32 clock

/-- The status that `check_kiosk_status` records. -/
def checkKioskStatus (ret : KioskRet) (status : KioskStatus) : KioskStatus :=
  if ret ≠ .ok then .noKiosk else status

def transStatusToText : TransactionStatus → CString
  | .ok => ⟨ascii "SUCCESS", by decide⟩
  | .declined => ⟨ascii "DECLINED", by decide⟩
  | .cancelled => ⟨ascii "CANCELLED", by decide⟩
  | .timeout => ⟨ascii "TIMEOUT", by decide⟩
  | .voided => ⟨ascii "VOIDED", by decide⟩
  | .error => ⟨ascii "ERROR", by decide⟩
  | .localMifare => ⟨ascii "UNKNOWN", by decide⟩

def PaymentResponse.reference (resp : PaymentResponse) : CString where
  bytes := resp.transactionReference.str
  noNul := by
    intro h
    have hne := List.mem_takeWhile_imp h
    simp at hne

/-- The statuses that `main` settles. -/
def TransactionStatus.approved (status : TransactionStatus) : Prop :=
  status = .ok ∨ status = .localMifare

instance : DecidablePred TransactionStatus.approved := fun _ => inferInstanceAs (Decidable (_ ∨ _))

namespace Demo

def pmtParams : PaymentParameters where
  amountCents := 450
  feeCents := 0
  productId := 0
  currencyCode := 978
  timeoutSec := 10
  continuous := false

/-- Before the first iteration; the clock may show anything. -/
structure Start (s : Demo) : Prop where
  pc : s.pc = .checkStatus
  curState : s.curState = .invalid
  newState : s.newState = .init
  lastStatus : s.lastStatus = .noKiosk
  paymentStatus : s.paymentStatus = false
  interrupted : s.interrupted = false
  wsi : s.wsi = none
  sendMessageFlag : s.sendMessageFlag = false
  timeStateExpiration : s.timeStateExpiration = 0
  confirm : s.confirm = true
  callback : s.callback = .idle
  connected : s.connected = []
  requested : s.requested = 0
  running : s.running = 0
  history : s.history = []

def boot : Demo where
  pc := .checkStatus
  curState := .invalid
  newState := .init
  lastStatus := .noKiosk
  lastPaymentResponse := .zero
  paymentStatus := false
  interrupted := false
  wsi := none
  sendMessageFlag := false
  jsonMessage := []
  timeStateExpiration := 0
  confirm := true
  callback := .idle
  clock := 0
  connected := []
  requested := 0
  running := 0
  history := []

theorem boot_start : Start boot := by constructor <;> rfl

inductive Action
  | main
  /-- `GetStatus` returns. -/
  | status (ret : KioskRet) (status : KioskStatus)
  /-- A command on whose result `main` depends returns. -/
  | result (ret : KioskRet)
  /-- The kiosk starts a transaction it was asked for. -/
  | kioskStarts
  /-- A request that `main` does not wait for any more is refused, or got lost. While `main` waits
  for it, that shows as the result. -/
  | kioskRefuses
  /-- The library calls `Transaction_Complete_Callback`, which stores the response. -/
  | completion (resp : PaymentResponse)
  /-- A transaction is over, and the library drops its completion. -/
  | completionLost
  | callback
  | established (client : ℕ)
  | closed (client : ℕ)
  | writeable (client : ℕ)
  | interrupt
  | tick
  deriving DecidableEq

def send (s : Demo) (cmd : BooleanCommand) (pc : MainPc) : Demo :=
  { s with pc := pc, history := .sent cmd :: s.history }

def transactionMessage (content : CString) : CJson .item :=
  cJsonAddStringToObject (cJsonAddStringToObject cJsonCreateObject ⟨ascii "type", by decide⟩
    ⟨ascii "transaction", by decide⟩) ⟨ascii "content", by decide⟩ content

/-- `send_json_message`, if there is memory for what cJSON makes. -/
def sendJsonMessage (s : Demo) (content : CString) : Demo :=
  { s with
    sendMessageFlag := if s.wsi.isSome then true else s.sendMessageFlag
    jsonMessage :=
      if s.wsi.isSome then ((transactionMessage content).text false).take 255 else s.jsonMessage }

/-- The request that `main` waits for. -/
def awaited (s : Demo) : ℕ := if s.pc = .preAuthorizeReturn then 1 else 0

def entry : DemoState → MainPc
  | .init => .getKioskId
  | .idle => .showWelcome
  | .trans => .preAuthorize
  | .transComplete => .completeClear
  | .message => .messageExpiration
  | .invalid => .interruptTest

def mainStep (s : Demo) : Option Demo :=
  match s.pc with
  | .lostTest => some { s with pc := if s.lastStatus = .noKiosk then .lostCheck else .stateTest }
  | .lostInit => some { s with pc := .lostTest, newState := .init }
  | .stateTest => some { s with pc := if s.newState ≠ s.curState then .assign else .interruptTest }
  | .assign => some { s with pc := entry s.newState, curState := s.newState }
  | .initIdle => some { s with pc := .interruptTest, newState := .idle }
  | .showWelcome =>
      some (s.send (.showMessage ⟨ascii "Welcome", by decide⟩ ⟨ascii "Please wait", by decide⟩)
        .idleExpiration)
  | .idleExpiration | .messageExpiration =>
      some { s with pc := .interruptTest, timeStateExpiration := getTimeSec s.clock + 5 }
  | .preAuthorize =>
      some { s.send (.preAuthorize pmtParams) .preAuthorizeReturn with
        requested := s.requested + 1 }
  | .showFailed =>
      some (s.send (.showMessage ⟨ascii "pmt start", by decide⟩ ⟨ascii "failed", by decide⟩)
        .startFailed)
  | .startFailed => some { s with pc := .interruptTest, newState := .message }
  | .completeClear => some { s with pc := .completeJson, paymentStatus := false }
  | .completeJson =>
      some { s.sendJsonMessage (transStatusToText s.lastPaymentResponse.status) with
        pc := .completeTest }
  | .completeTest =>
      some { s with
        pc := if s.lastPaymentResponse.status.approved then .showApproved else .showStatus }
  | .showApproved =>
      some (s.send (.showMessage ⟨ascii "approved", by decide⟩ ⟨ascii "thank you!", by decide⟩)
        .settle)
  | .settle =>
      let reference := s.lastPaymentResponse.reference
      some { s.send (if s.confirm then .confirmTransaction 450 0 42 reference
        else .voidTransaction reference) .completeDone with confirm := !s.confirm }
  | .showStatus =>
      some (s.send (.showMessage (transStatusToText s.lastPaymentResponse.status)
        ⟨[], List.not_mem_nil⟩) .completeDone)
  | .completeDone => some { s with pc := .interruptTest, newState := .message }
  | .interruptTest => some { s with pc := if s.interrupted then .flagTest else .service }
  | .service => some { s with pc := .flagTest }
  | .flagTest =>
      some { s with
        pc := if s.paymentStatus ∧ s.curState = .idle then .setTrans else .expirationTest }
  | .setTrans => some { s with pc := .expirationTest, newState := .trans }
  | .expirationTest =>
      some { s with
        pc := if 0 < s.timeStateExpiration ∧ s.timeStateExpiration < getTimeSec s.clock ∧
          s.curState = .message then .setIdle else .checkStatus }
  | .setIdle => some { s with pc := .checkStatus, newState := .idle }
  -- these wait for the result of a command
  | .checkStatus | .lostCheck | .getKioskId | .getKioskVersion | .getReaderVersion
  | .preAuthorizeReturn => none

/-- `main` goes on with the result of a command. -/
def resultStep (s : Demo) (ret : KioskRet) : Option Demo :=
  match s.pc with
  | .getKioskId => some { s with pc := if ret = .ok then .getKioskVersion else .interruptTest }
  | .getKioskVersion => some { s with pc := if ret = .ok then .getReaderVersion else .interruptTest }
  | .getReaderVersion => some { s with pc := if ret = .ok then .initIdle else .interruptTest }
  | .preAuthorizeReturn =>
      if ret ≠ .ok then some { s with pc := .showFailed }
      else
        some { s with
          pc := .interruptTest
          timeStateExpiration := 0
          history := .accepted :: s.history }
  | _ => none

def step (s : Demo) : Action → Option Demo
  | .main => s.mainStep
  | .status ret status =>
      match s.pc with
      | .checkStatus => some { s with pc := .lostTest, lastStatus := checkKioskStatus ret status }
      | .lostCheck => some { s with pc := .lostInit, lastStatus := checkKioskStatus ret status }
      | _ => none
  | .result ret => s.resultStep ret
  | .kioskStarts =>
      if 0 < s.requested then
        some { s with requested := s.requested - 1, running := s.running + 1 }
      else none
  | .kioskRefuses =>
      if s.awaited < s.requested then some { s with requested := s.requested - 1 } else none
  | .completion resp =>
      if s.callback = .idle then
        some { s with
          lastPaymentResponse := resp
          callback := .test
          running := s.running - 1
          history := .completed resp :: s.history }
      else none
  | .completionLost =>
      if 0 < s.running then some { s with running := s.running - 1 } else none
  | .callback =>
      match s.callback with
      | .idle => none
      | .test => some { s with callback := if s.curState = .trans then .write else .idle }
      | .write => some { s with callback := .idle, newState := .transComplete }
  | .established client =>
      if s.pc = .service ∧ client ∉ s.connected then
        some { s with
          wsi := some client
          paymentStatus := true
          connected := client :: s.connected
          history := .established client :: s.history }
      else none
  | .closed client =>
      if s.pc = .service ∧ client ∈ s.connected then
        some { s with
          paymentStatus := false
          wsi := none
          connected := s.connected.erase client
          history := .closed client :: s.history }
      else none
  | .writeable client =>
      if s.pc = .service ∧ client ∈ s.connected then some { s with sendMessageFlag := false }
      else none
  | .interrupt => some { s with interrupted := true }
  | .tick => some { s with clock := s.clock + 1 }

def machine : Machine Demo Action where
  start := Start
  step := step

/-! ### Runs -/

def iterations (ns : List ℕ) : List Action :=
  ns.flatMap fun n => .status .ok .ready :: List.replicate n .main

/-- The kiosk answers in `ST_INIT`, up to the service of the clients. -/
def initialise : List Action := [.result .ok, .result .ok, .result .ok, .main, .main]

def requestRun : List Action :=
  iterations [3] ++ initialise ++ .established 1 :: List.replicate 3 .main ++ iterations [10, 4]

/-! ### What a step can do -/

/-- The steps of `main` that go on to another step, and change nothing else. -/
inductive Goes (s : Demo) : MainPc → MainPc → Prop
  | lost : s.lastStatus = .noKiosk → Goes s .lostTest .lostCheck
  | found : s.lastStatus ≠ .noKiosk → Goes s .lostTest .stateTest
  | change : s.newState ≠ s.curState → Goes s .stateTest .assign
  | noChange : s.newState = s.curState → Goes s .stateTest .interruptTest
  | approved : s.lastPaymentResponse.status.approved → Goes s .completeTest .showApproved
  | notApproved : ¬s.lastPaymentResponse.status.approved → Goes s .completeTest .showStatus
  | interrupted : s.interrupted = true → Goes s .interruptTest .flagTest
  | notInterrupted : s.interrupted = false → Goes s .interruptTest .service
  | serviced : Goes s .service .flagTest
  | requested : s.paymentStatus = true → s.curState = .idle → Goes s .flagTest .setTrans
  | notRequested : ¬(s.paymentStatus = true ∧ s.curState = .idle) → Goes s .flagTest .expirationTest
  | expired : 0 < s.timeStateExpiration → s.timeStateExpiration < getTimeSec s.clock →
      s.curState = .message → Goes s .expirationTest .setIdle
  | notExpired : ¬(0 < s.timeStateExpiration ∧ s.timeStateExpiration < getTimeSec s.clock ∧
      s.curState = .message) → Goes s .expirationTest .checkStatus

inductive Sets : MainPc → MainPc → DemoState → Prop
  | lostInit : Sets .lostInit .lostTest .init
  | initIdle : Sets .initIdle .interruptTest .idle
  | startFailed : Sets .startFailed .interruptTest .message
  | completeDone : Sets .completeDone .interruptTest .message
  | setTrans : Sets .setTrans .expirationTest .trans
  | setIdle : Sets .setIdle .checkStatus .idle

inductive Shows : MainPc → MainPc → Prop
  | welcome : Shows .showWelcome .idleExpiration
  | failed : Shows .showFailed .startFailed
  | approved : Shows .showApproved .settle
  | status : Shows .showStatus .completeDone

/-- The results of commands that `main` only goes on with. -/
inductive Returns : KioskRet → MainPc → MainPc → Prop
  | kioskId : Returns .ok .getKioskId .getKioskVersion
  | kioskVersion : Returns .ok .getKioskVersion .getReaderVersion
  | readerVersion : Returns .ok .getReaderVersion .initIdle
  | initFailed {ret : KioskRet} {pc : MainPc} : ret ≠ .ok →
      pc = .getKioskId ∨ pc = .getKioskVersion ∨ pc = .getReaderVersion →
      Returns ret pc .interruptTest
  | notStarted {ret : KioskRet} : ret ≠ .ok → Returns ret .preAuthorizeReturn .showFailed

inductive Transition (s : Demo) : Action → Demo → Prop
  | goes {pc pc' : MainPc} : s.pc = pc → Goes s pc pc' → Transition s .main { s with pc := pc' }
  | sets {pc pc' : MainPc} {state : DemoState} : s.pc = pc → Sets pc pc' state →
      Transition s .main { s with pc := pc', newState := state }
  | shows {pc pc' : MainPc} (line1 line2 : CString) : s.pc = pc → Shows pc pc' →
      Transition s .main (s.send (.showMessage line1 line2) pc')
  | returns {pc pc' : MainPc} {ret : KioskRet} : s.pc = pc → Returns ret pc pc' →
      Transition s (.result ret) { s with pc := pc' }
  | status (ret : KioskRet) (status : KioskStatus) : s.pc = .checkStatus →
      Transition s (.status ret status)
        { s with pc := .lostTest, lastStatus := checkKioskStatus ret status }
  | statusAgain (ret : KioskRet) (status : KioskStatus) : s.pc = .lostCheck →
      Transition s (.status ret status)
        { s with pc := .lostInit, lastStatus := checkKioskStatus ret status }
  | assign : s.pc = .assign → Transition s .main
      { s with pc := entry s.newState, curState := s.newState }
  | expiration : s.pc = .idleExpiration ∨ s.pc = .messageExpiration → Transition s .main
      { s with pc := .interruptTest, timeStateExpiration := getTimeSec s.clock + 5 }
  | preAuthorize : s.pc = .preAuthorize →
      Transition s .main { s.send (.preAuthorize pmtParams) .preAuthorizeReturn with
        requested := s.requested + 1 }
  | kioskStarts : 0 < s.requested → Transition s .kioskStarts
      { s with requested := s.requested - 1, running := s.running + 1 }
  | kioskRefuses : s.awaited < s.requested → Transition s .kioskRefuses
      { s with requested := s.requested - 1 }
  | accepted : s.pc = .preAuthorizeReturn → Transition s (.result .ok)
      { s with
        pc := .interruptTest
        timeStateExpiration := 0
        history := .accepted :: s.history }
  | completeClear : s.pc = .completeClear → Transition s .main
      { s with pc := .completeJson, paymentStatus := false }
  | completeJson : s.pc = .completeJson → Transition s .main
      { s.sendJsonMessage (transStatusToText s.lastPaymentResponse.status) with
        pc := .completeTest }
  | settle : s.pc = .settle → Transition s .main
      { s.send (if s.confirm then .confirmTransaction 450 0 42 s.lastPaymentResponse.reference
        else .voidTransaction s.lastPaymentResponse.reference) .completeDone with
        confirm := !s.confirm }
  | completion (resp : PaymentResponse) : s.callback = .idle → Transition s (.completion resp)
      { s with
        lastPaymentResponse := resp
        callback := .test
        running := s.running - 1
        history := .completed resp :: s.history }
  | completionLost : 0 < s.running → Transition s .completionLost
      { s with running := s.running - 1 }
  | callbackTrue : s.callback = .test → s.curState = .trans →
      Transition s .callback { s with callback := .write }
  | callbackFalse : s.callback = .test → s.curState ≠ .trans →
      Transition s .callback { s with callback := .idle }
  | callbackWrite : s.callback = .write → Transition s .callback
      { s with callback := .idle, newState := .transComplete }
  | established (client : ℕ) : s.pc = .service → client ∉ s.connected →
      Transition s (.established client)
        { s with
          wsi := some client
          paymentStatus := true
          connected := client :: s.connected
          history := .established client :: s.history }
  | closed (client : ℕ) : s.pc = .service → client ∈ s.connected →
      Transition s (.closed client)
        { s with
          paymentStatus := false
          wsi := none
          connected := s.connected.erase client
          history := .closed client :: s.history }
  | writeable (client : ℕ) : s.pc = .service → client ∈ s.connected →
      Transition s (.writeable client) { s with sendMessageFlag := false }
  | interrupt : Transition s .interrupt { s with interrupted := true }
  | tick : Transition s .tick { s with clock := s.clock + 1 }

theorem transition_of_mainStep {s s' : Demo} (h : s.mainStep = some s') :
    Transition s .main s' := by
  rw [mainStep] at h
  cases hpc : s.pc with
  | checkStatus | lostCheck | getKioskId | getKioskVersion | getReaderVersion
  | preAuthorizeReturn =>
      rw [hpc] at h
      cases h
  -- a test of the source is two transitions, one for each outcome
  | lostTest =>
      rw [hpc] at h
      cases h
      split_ifs with hstatus
      · exact .goes hpc (.lost hstatus)
      · exact .goes hpc (.found hstatus)
  | lostInit =>
      rw [hpc] at h
      cases h
      exact .sets hpc .lostInit
  | stateTest =>
      rw [hpc] at h
      cases h
      split_ifs with hstate
      · exact .goes hpc (.change hstate)
      · exact .goes hpc (.noChange (not_not.mp hstate))
  | assign =>
      rw [hpc] at h
      cases h
      exact .assign hpc
  | initIdle =>
      rw [hpc] at h
      cases h
      exact .sets hpc .initIdle
  | showWelcome =>
      rw [hpc] at h
      cases h
      exact .shows _ _ hpc .welcome
  | idleExpiration =>
      rw [hpc] at h
      cases h
      exact .expiration (.inl hpc)
  | messageExpiration =>
      rw [hpc] at h
      cases h
      exact .expiration (.inr hpc)
  | preAuthorize =>
      rw [hpc] at h
      cases h
      exact .preAuthorize hpc
  | showFailed =>
      rw [hpc] at h
      cases h
      exact .shows _ _ hpc .failed
  | startFailed =>
      rw [hpc] at h
      cases h
      exact .sets hpc .startFailed
  | completeClear =>
      rw [hpc] at h
      cases h
      exact .completeClear hpc
  | completeJson =>
      rw [hpc] at h
      cases h
      exact .completeJson hpc
  | completeTest =>
      rw [hpc] at h
      cases h
      split_ifs with happroved
      · exact .goes hpc (.approved happroved)
      · exact .goes hpc (.notApproved happroved)
  | showApproved =>
      rw [hpc] at h
      cases h
      exact .shows _ _ hpc .approved
  | settle =>
      rw [hpc] at h
      cases h
      exact .settle hpc
  | showStatus =>
      rw [hpc] at h
      cases h
      exact .shows _ _ hpc .status
  | completeDone =>
      rw [hpc] at h
      cases h
      exact .sets hpc .completeDone
  | interruptTest =>
      rw [hpc] at h
      cases h
      split_ifs with hinterrupted
      · exact .goes hpc (.interrupted hinterrupted)
      · exact .goes hpc (.notInterrupted (Bool.eq_false_of_not_eq_true hinterrupted))
  | service =>
      rw [hpc] at h
      cases h
      exact .goes hpc .serviced
  | flagTest =>
      rw [hpc] at h
      cases h
      split_ifs with hflag
      · exact .goes hpc (.requested hflag.1 hflag.2)
      · exact .goes hpc (.notRequested hflag)
  | setTrans =>
      rw [hpc] at h
      cases h
      exact .sets hpc .setTrans
  | expirationTest =>
      rw [hpc] at h
      cases h
      split_ifs with hexpired
      · exact .goes hpc (.expired hexpired.1 hexpired.2.1 hexpired.2.2)
      · exact .goes hpc (.notExpired hexpired)
  | setIdle =>
      rw [hpc] at h
      cases h
      exact .sets hpc .setIdle

theorem transition_of_resultStep {s s' : Demo} {ret : KioskRet} (h : s.resultStep ret = some s') :
    Transition s (.result ret) s' := by
  rw [resultStep] at h
  split at h
  · next hpc =>
      cases h
      split_ifs with hret
      · subst hret
        exact .returns hpc .kioskId
      · exact .returns hpc (.initFailed hret (.inl rfl))
  · next hpc =>
      cases h
      split_ifs with hret
      · subst hret
        exact .returns hpc .kioskVersion
      · exact .returns hpc (.initFailed hret (.inr (.inl rfl)))
  · next hpc =>
      cases h
      split_ifs with hret
      · subst hret
        exact .returns hpc .readerVersion
      · exact .returns hpc (.initFailed hret (.inr (.inr rfl)))
  · next hpc =>
      split_ifs at h with hret
      · cases h
        exact .returns hpc (.notStarted hret)
      · cases h
        obtain rfl := not_not.mp hret
        exact .accepted hpc
  · cases h

theorem transition_of_step {s s' : Demo} {a : Action} (h : machine.step s a = some s') :
    Transition s a s' := by
  change step s a = some s' at h
  cases a with
  | main => exact transition_of_mainStep h
  | status ret status =>
      rw [step] at h
      split at h
      · next hpc =>
          cases h
          exact .status ret status hpc
      · next hpc =>
          cases h
          exact .statusAgain ret status hpc
      · cases h
  | result ret => exact transition_of_resultStep h
  | kioskStarts =>
      rw [step] at h
      split_ifs at h with hrequested
      cases h
      exact .kioskStarts hrequested
  | kioskRefuses =>
      rw [step] at h
      split_ifs at h with hrequested
      cases h
      exact .kioskRefuses hrequested
  | completion resp =>
      rw [step] at h
      split_ifs at h with hcb
      cases h
      exact .completion resp hcb
  | completionLost =>
      rw [step] at h
      split_ifs at h with hrunning
      cases h
      exact .completionLost hrunning
  | callback =>
      rw [step] at h
      cases hcb : s.callback with
      | idle =>
          rw [hcb] at h
          cases h
      | test =>
          rw [hcb] at h
          cases h
          split_ifs with hstate
          · exact .callbackTrue hcb hstate
          · exact .callbackFalse hcb hstate
      | write =>
          rw [hcb] at h
          cases h
          exact .callbackWrite hcb
  | established client =>
      rw [step] at h
      split_ifs at h with hservice
      cases h
      exact .established client hservice.1 hservice.2
  | closed client =>
      rw [step] at h
      split_ifs at h with hservice
      cases h
      exact .closed client hservice.1 hservice.2
  | writeable client =>
      rw [step] at h
      split_ifs at h with hservice
      cases h
      exact .writeable client hservice.1 hservice.2
  | interrupt =>
      cases h
      exact .interrupt
  | tick =>
      cases h
      exact .tick

/-! ### Where `main` is -/

/-- The state whose `case`, or whose test, a step belongs to. -/
def home : MainPc → Option DemoState
  | .getKioskId | .getKioskVersion | .getReaderVersion | .initIdle => some .init
  | .showWelcome | .idleExpiration | .setTrans => some .idle
  | .preAuthorize | .preAuthorizeReturn | .showFailed | .startFailed => some .trans
  | .completeClear | .completeJson | .completeTest | .showApproved | .settle | .showStatus
  | .completeDone => some .transComplete
  | .messageExpiration | .setIdle => some .message
  | .checkStatus | .lostTest | .lostCheck | .lostInit | .stateTest | .assign | .interruptTest
  | .service | .flagTest | .expirationTest => none

def Located (s : Demo) : Prop := ∀ state, home s.pc = some state → s.curState = state

theorem Located.at_pc {s : Demo} (h : Located s) {pc : MainPc} (hpc : s.pc = pc) {state : DemoState}
    (hhome : home pc = some state) : s.curState = state := by
  subst hpc
  exact h state hhome

theorem home_entry {state state' : DemoState} (h : home (entry state) = some state') :
    state = state' := by
  cases state with
  | invalid => cases h
  | _ => exact Option.some.inj h

theorem located_goes {s : Demo} {pc pc' : MainPc} (hlocated : ∀ state, home pc = some state →
    s.curState = state) (h : Goes s pc pc') :
    ∀ state, home pc' = some state → s.curState = state := by
  cases h with
  | approved _ => exact hlocated
  | notApproved _ => exact hlocated
  | requested _ hstate =>
      rintro _ ⟨⟩
      exact hstate
  | expired _ _ hstate =>
      rintro _ ⟨⟩
      exact hstate
  | _ => exact nofun

theorem located_step {s s' : Demo} {a : Action} (h : Located s) (hs : Transition s a s') :
    Located s' := by
  cases hs with
  | goes hpc hgoes =>
      have hhome := located_goes (fun _ => h.at_pc hpc) hgoes
      exact hhome
  | sets hpc hsets => cases hsets <;> exact nofun
  | shows line1 line2 hpc hshows => cases hshows <;> exact fun _ => h.at_pc hpc
  | returns hpc hreturns =>
      cases hreturns with
      | initFailed _ _ => exact nofun
      | _ => exact fun _ => h.at_pc hpc
  | status ret status hpc => exact nofun
  | statusAgain ret status hpc => exact nofun
  | assign hpc => exact fun _ => home_entry
  | expiration hpc => exact nofun
  | preAuthorize hpc => exact fun _ => h.at_pc hpc
  | accepted hpc => exact nofun
  | completeClear hpc => exact fun _ => h.at_pc hpc
  | completeJson hpc => exact fun _ => h.at_pc hpc
  | settle hpc => exact fun _ => h.at_pc hpc
  | _ => exact h

theorem located_start {s : Demo} (h : Start s) : Located s := by
  intro state hhome
  rw [h.pc] at hhome
  cases hhome

end Demo

end OtiKiosk
