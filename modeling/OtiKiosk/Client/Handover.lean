import OtiKiosk.Client.Receive
import OtiKiosk.Lib.Transition

/-!
How an answer gets from the receiving thread to the application: one buffer, one
length, two semaphores and the id that is waited for. The receiver runs through
`_kiosk_comm_loop` and `kiosk_msg_received`, one application thread through
`send_receive`, the kiosk answers when it likes. Every access to a shared
variable is one step, but for the test of the receiver, which reads `_expected_id`
twice in one step. Steps interleave in any order, and a timed wait may expire at
any time, whether or not it could succeed.

A call is known by its number. The numbers, the lists of what was received and
returned, and how the last call ended are there to speak about runs; no step
depends on them.
-/

namespace OtiKiosk

open Ascii Json

/-- A call of `send_receive`: its number, the id of its command, and the room for the response. -/
structure Call where
  number : ℕ
  id : ℤ
  room : ℕ
  deriving DecidableEq

/-- A message from the kiosk, and the number of the call that it answers, if it is an answer. -/
structure Msg where
  bytes : Bytes
  answers : Option ℕ
  deriving DecidableEq

/-- The next step of the application in `send_receive`; at `idle` it is outside. -/
inductive AppPc
  | idle
  | setExpected (call : Call)
  | clearReady (call : Call)
  | write (call : Call)
  | waitReady (call : Call)
  | compareLen (call : Call)
  | readLen (call : Call)
  | copy (call : Call) (respLen : ℕ)
  | postDone (call : Call) (resp : Bytes)
  | resetExpected (call : Call) (resp : Bytes)
  deriving DecidableEq

inductive ReceiverPc
  | read | test | setLen | clearDone | postReady | waitDone | zeroLen | event
  deriving DecidableEq

structure ClientState where
  app : AppPc
  receiver : ReceiverPc
  workBuffer : Bytes
  dataLen : ℕ
  currentRespLen : ℕ
  respReady : ℕ
  respDone : ℕ
  expectedId : ℤ
  /-- Messages on their way, the oldest first. -/
  incoming : List Msg
  /-- Commands that were written and not answered yet. -/
  unanswered : List Call
  calls : ℕ
  /-- The messages that were read, the last one first. -/
  received : List Msg
  /-- The last call that set `_expected_id`, and what it returned. -/
  latest : Option (Call × Option KioskRet)
  /-- The calls that returned `KIOSK_RET_OK`, and the responses. -/
  returned : List (Call × Bytes)
  deriving DecidableEq

namespace Client

def start : ClientState where
  app := .idle
  receiver := .read
  workBuffer := List.replicate workBufferSize nul
  dataLen := 0
  currentRespLen := 0
  respReady := 0
  respDone := 0
  expectedId := -1
  incoming := []
  unanswered := []
  calls := 0
  received := []
  latest := none
  returned := []

inductive Action
  /-- The application calls `send_receive` with a command that has this id. -/
  | call (id : ℤ) (room : ℕ)
  | app
  | writeFails
  | appTimeout
  | receiver
  | receiverTimeout
  /-- The kiosk answers the command of the call with this number. -/
  | answer (number : ℕ) (bytes : Bytes)
  /-- The kiosk sends something else. -/
  | notify (bytes : Bytes)
  deriving DecidableEq

/-- `send_receive` returns an error. -/
def fail (s : ClientState) (call : Call) (ret : KioskRet) : ClientState :=
  { s with app := .idle, latest := some (call, some ret) }

def appStep (s : ClientState) : Option ClientState :=
  match s.app with
  | .idle => none
  | .setExpected call =>
      some { s with app := .clearReady call, expectedId := call.id, latest := some (call, none) }
  | .clearReady call => some { s with app := .write call, respReady := 0 }
  | .write call => some { s with app := .waitReady call, unanswered := call :: s.unanswered }
  | .waitReady call =>
      if 0 < s.respReady then some { s with app := .compareLen call, respReady := s.respReady - 1 }
      else none
  | .compareLen call =>
      if call.room < s.currentRespLen then some (fail s call .generalError)
      else some { s with app := .readLen call }
  | .readLen call => some { s with app := .copy call s.currentRespLen }
  | .copy call respLen => some { s with app := .postDone call (s.workBuffer.take respLen) }
  | .postDone call resp =>
      some { s with app := .resetExpected call resp, respDone := s.respDone + 1 }
  | .resetExpected call resp =>
      some { s with
        app := .idle
        expectedId := -1
        latest := some (call, some .ok)
        returned := (call, resp) :: s.returned }

def receiverStep (s : ClientState) : Option ClientState :=
  match s.receiver with
  | .read =>
      match s.incoming with
      | [] => none
      | msg :: incoming =>
          some { s with
            receiver := .test
            workBuffer := OtiKiosk.workBuffer msg.bytes
            dataLen := msg.bytes.length
            incoming := incoming
            received := msg :: s.received }
  | .test =>
      if 0 ≤ s.expectedId ∧ parseId s.workBuffer s.dataLen = some s.expectedId then
        some { s with receiver := .setLen }
      else some { s with receiver := .event }
  | .setLen => some { s with receiver := .clearDone, currentRespLen := s.dataLen }
  | .clearDone => some { s with receiver := .postReady, respDone := 0 }
  | .postReady => some { s with receiver := .waitDone, respReady := s.respReady + 1 }
  | .waitDone =>
      if 0 < s.respDone then some { s with receiver := .zeroLen, respDone := s.respDone - 1 }
      else none
  | .zeroLen => some { s with receiver := .read, currentRespLen := 0 }
  -- the acknowledgement and the callback touch nothing of what is shared here
  | .event => some { s with receiver := .read }

/-- A message that one `read` returns. -/
def IsRead (bytes : Bytes) : Prop := 1 ≤ bytes.length ∧ bytes.length ≤ workBufferSize

instance (bytes : Bytes) : Decidable (IsRead bytes) := inferInstanceAs (Decidable (_ ∧ _))

def step (s : ClientState) : Action → Option ClientState
  | .call id room =>
      if s.app = .idle then
        some { s with app := .setExpected ⟨s.calls, id, room⟩, calls := s.calls + 1 }
      else none
  | .app => appStep s
  | .writeFails =>
      match s.app with
      | .write call => some (fail s call .commError)
      | _ => none
  | .appTimeout =>
      match s.app with
      | .waitReady call => some (fail s call .commError)
      | _ => none
  | .receiver => receiverStep s
  | .receiverTimeout =>
      if s.receiver = .waitDone then some { s with receiver := .zeroLen } else none
  | .answer number bytes =>
      match s.unanswered.find? (·.number = number) with
      | some call =>
          if IsRead bytes ∧ parseId bytes bytes.length = some call.id then
            some { s with
              incoming := s.incoming ++ [⟨bytes, some number⟩]
              unanswered := s.unanswered.erase call }
          else none
      | none => none
  | .notify bytes =>
      if IsRead bytes then some { s with incoming := s.incoming ++ [⟨bytes, none⟩] } else none

def machine : Machine ClientState Action where
  start s := s = start
  step := step

/-! ### What a step can do -/

inductive Transition (s : ClientState) : Action → ClientState → Prop
  | call (id : ℤ) (room : ℕ) : s.app = .idle → Transition s (.call id room)
      { s with app := .setExpected ⟨s.calls, id, room⟩, calls := s.calls + 1 }
  | setExpected (call : Call) : s.app = .setExpected call → Transition s .app
      { s with app := .clearReady call, expectedId := call.id, latest := some (call, none) }
  | clearReady (call : Call) : s.app = .clearReady call → Transition s .app
      { s with app := .write call, respReady := 0 }
  | write (call : Call) : s.app = .write call → Transition s .app
      { s with app := .waitReady call, unanswered := call :: s.unanswered }
  | writeFails (call : Call) : s.app = .write call →
      Transition s .writeFails (fail s call .commError)
  | waitReady (call : Call) : s.app = .waitReady call → 0 < s.respReady → Transition s .app
      { s with app := .compareLen call, respReady := s.respReady - 1 }
  | appTimeout (call : Call) : s.app = .waitReady call →
      Transition s .appTimeout (fail s call .commError)
  | overflow (call : Call) : s.app = .compareLen call →
      Transition s .app (fail s call .generalError)
  | compareLen (call : Call) : s.app = .compareLen call → Transition s .app
      { s with app := .readLen call }
  | readLen (call : Call) : s.app = .readLen call → Transition s .app
      { s with app := .copy call s.currentRespLen }
  | copy (call : Call) (respLen : ℕ) : s.app = .copy call respLen → Transition s .app
      { s with app := .postDone call (s.workBuffer.take respLen) }
  | postDone (call : Call) (resp : Bytes) : s.app = .postDone call resp → Transition s .app
      { s with app := .resetExpected call resp, respDone := s.respDone + 1 }
  | resetExpected (call : Call) (resp : Bytes) : s.app = .resetExpected call resp →
      Transition s .app
        { s with
          app := .idle
          expectedId := -1
          latest := some (call, some .ok)
          returned := (call, resp) :: s.returned }
  | read (msg : Msg) (incoming : List Msg) : s.receiver = .read → s.incoming = msg :: incoming →
      Transition s .receiver
        { s with
          receiver := .test
          workBuffer := OtiKiosk.workBuffer msg.bytes
          dataLen := msg.bytes.length
          incoming := incoming
          received := msg :: s.received }
  | expected : s.receiver = .test →
      0 ≤ s.expectedId ∧ parseId s.workBuffer s.dataLen = some s.expectedId →
      Transition s .receiver { s with receiver := .setLen }
  | unexpected : s.receiver = .test → Transition s .receiver { s with receiver := .event }
  | setLen : s.receiver = .setLen → Transition s .receiver
      { s with receiver := .clearDone, currentRespLen := s.dataLen }
  | clearDone : s.receiver = .clearDone → Transition s .receiver
      { s with receiver := .postReady, respDone := 0 }
  | postReady : s.receiver = .postReady → Transition s .receiver
      { s with receiver := .waitDone, respReady := s.respReady + 1 }
  | waitDone : s.receiver = .waitDone → 0 < s.respDone → Transition s .receiver
      { s with receiver := .zeroLen, respDone := s.respDone - 1 }
  | receiverTimeout : s.receiver = .waitDone →
      Transition s .receiverTimeout { s with receiver := .zeroLen }
  | zeroLen : s.receiver = .zeroLen → Transition s .receiver
      { s with receiver := .read, currentRespLen := 0 }
  | event : s.receiver = .event → Transition s .receiver { s with receiver := .read }
  | answer (call : Call) (bytes : Bytes) : call ∈ s.unanswered →
      parseId bytes bytes.length = some call.id → Transition s (.answer call.number bytes)
        { s with
          incoming := s.incoming ++ [⟨bytes, some call.number⟩]
          unanswered := s.unanswered.erase call }
  | notify (bytes : Bytes) : Transition s (.notify bytes)
      { s with incoming := s.incoming ++ [⟨bytes, none⟩] }

theorem transition_of_appStep {s s' : ClientState} (h : appStep s = some s') :
    Transition s .app s' := by
  rw [appStep] at h
  cases happ : s.app with
  | idle =>
      rw [happ] at h
      cases h
  | setExpected call =>
      rw [happ] at h
      cases h
      exact .setExpected call happ
  | clearReady call =>
      rw [happ] at h
      cases h
      exact .clearReady call happ
  | write call =>
      rw [happ] at h
      cases h
      exact .write call happ
  | waitReady call =>
      rw [happ] at h
      simp only at h
      split_ifs at h with hready
      cases h
      exact .waitReady call happ hready
  | compareLen call =>
      rw [happ] at h
      simp only at h
      split_ifs at h
      · cases h
        exact .overflow call happ
      · cases h
        exact .compareLen call happ
  | readLen call =>
      rw [happ] at h
      cases h
      exact .readLen call happ
  | copy call respLen =>
      rw [happ] at h
      cases h
      exact .copy call respLen happ
  | postDone call resp =>
      rw [happ] at h
      cases h
      exact .postDone call resp happ
  | resetExpected call resp =>
      rw [happ] at h
      cases h
      exact .resetExpected call resp happ

theorem transition_of_receiverStep {s s' : ClientState} (h : receiverStep s = some s') :
    Transition s .receiver s' := by
  rw [receiverStep] at h
  cases hrcv : s.receiver with
  | read =>
      rw [hrcv] at h
      cases hin : s.incoming with
      | nil =>
          rw [hin] at h
          cases h
      | cons msg incoming =>
          rw [hin] at h
          cases h
          exact .read msg incoming hrcv hin
  | test =>
      rw [hrcv] at h
      simp only at h
      split_ifs at h with hexpected
      · cases h
        exact .expected hrcv hexpected
      · cases h
        exact .unexpected hrcv
  | setLen =>
      rw [hrcv] at h
      cases h
      exact .setLen hrcv
  | clearDone =>
      rw [hrcv] at h
      cases h
      exact .clearDone hrcv
  | postReady =>
      rw [hrcv] at h
      cases h
      exact .postReady hrcv
  | waitDone =>
      rw [hrcv] at h
      simp only at h
      split_ifs at h with hdone
      cases h
      exact .waitDone hrcv hdone
  | zeroLen =>
      rw [hrcv] at h
      cases h
      exact .zeroLen hrcv
  | event =>
      rw [hrcv] at h
      cases h
      exact .event hrcv

theorem transition_of_step {s s' : ClientState} {a : Action} (h : machine.step s a = some s') :
    Transition s a s' := by
  change step s a = some s' at h
  cases a with
  | call id room =>
      rw [step] at h
      split_ifs at h with happ
      cases h
      exact .call id room happ
  | app => exact transition_of_appStep h
  | writeFails =>
      rw [step] at h
      split at h
      · next call happ =>
          cases h
          exact .writeFails call happ
      · cases h
  | appTimeout =>
      rw [step] at h
      split at h
      · next call happ =>
          cases h
          exact .appTimeout call happ
      · cases h
  | receiver => exact transition_of_receiverStep h
  | receiverTimeout =>
      rw [step] at h
      split_ifs at h with hrcv
      cases h
      exact .receiverTimeout hrcv
  | answer number bytes =>
      rw [step] at h
      split at h
      · next call hfind =>
          split_ifs at h with hbytes
          cases h
          have hnumber : call.number = number := by simpa using List.find?_some hfind
          subst hnumber
          exact .answer call bytes (List.mem_of_find?_eq_some hfind) hbytes.2
      · cases h
  | notify bytes =>
      rw [step] at h
      split_ifs at h
      cases h
      exact .notify bytes

end Client

end OtiKiosk
