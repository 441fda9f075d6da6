import OtiKiosk.Lib.Slots
import OtiKiosk.Lib.Transition

/-!
The sockets of the client. One thread for each of the two sockets runs
`_kiosk_comm_loop`, which connects the socket, receives, and connects it again when
the connection is lost; any thread may be in `send_to_kiosk`, the thread of the
command socket for an acknowledgement. Both close the socket, so it is guarded by a
mutex, which only some of the accesses take.

Every system call, every step on a mutex and every access to `sockfd` is one step.
The descriptor table is that of the process: a number that was closed may be handed
out again, also to other parts of the program. Sockets are numbered to speak about
runs; no step depends on these numbers, nor on the counts and lists.
-/

namespace OtiKiosk

inductive Side
  | commands | reader
  deriving DecidableEq

/-- An open descriptor: the socket it stands for, and who opened it, if it was the client. -/
structure Descriptor where
  socket : ℕ
  owner : Option Side
  connected : Bool
  deriving DecidableEq

/-- A value read from `sockfd`, and the socket it stood for. A negative one is nothing. -/
structure Ref where
  fd : Option ℕ
  socket : Option ℕ
  deriving DecidableEq

/-- The next step in `_kiosk_comm_loop`. The two branches differ in their first step only. -/
inductive LoopPc
  | lock | testFd | readShutdown | shutdown (r : Ref) | readClose | close (r : Ref) | clear
  | resolve | testPath | socket | testSocket | readConnect | connect (r : Ref)
  | readFailed | closeFailed (r : Ref) | clearFailed | unlockRetry | unlockConnected
  | testInner | readInner | poll (r : Ref) | read (r : Ref) | recvCb
  deriving DecidableEq

/-- The next step in `send_to_kiosk`; `failed` is what the write failed on. -/
inductive SenderPc
  | idle | test | readWrite | write (r : Ref)
  | lock (failed : Ref) | readClose (failed : Ref) | close (failed r : Ref) | clear | unlock
  deriving DecidableEq

/-- Who holds a mutex: the thread in the loop, or one in `send_to_kiosk`. -/
inductive Holder (Thread : Type)
  | loop
  | sender (who : Option Thread)
  deriving DecidableEq

/-- `KioskSocketOptions`, and the thread in `_kiosk_comm_loop` on it. -/
structure Channel (Thread : Type) where
  isTcp : Bool
  /-- `server_addr` does not fit into a `sockaddr_un`. -/
  addrTooLong : Bool
  sockfd : Option ℕ
  mutex : Option (Holder Thread)
  pc : LoopPc
  /-- The socket that `sockfd` was set to. -/
  socket : Option ℕ
  /-- How often the loop has taken the mutex, and released it. -/
  locks : ℕ
  unlocks : ℕ

/-- The client; the sender without a name is the thread of the command socket. -/
structure Network (Thread : Type) where
  channel : Side → Channel Thread
  senders : Option Thread → SenderPc
  table : Slots Descriptor
  sockets : ℕ
  /-- The sockets that the client has closed. -/
  closed : List ℕ

inductive NetworkAction (Thread : Type)
  /-- A step of the loop that can go one way only. -/
  | loop (side : Side)
  | resolved (side : Side) (found : Bool)
  | opened (side : Side) (fd : Option ℕ)
  | connected (side : Side) (ok : Bool)
  | pollFails (side : Side)
  | pollTimeout (side : Side)
  | pollReady (side : Side)
  | received (side : Side) (some : Bool)
  /-- A call of `send_to_kiosk`. -/
  | send (who : Option Thread)
  | sender (who : Option Thread)
  | written (who : Option Thread) (all : Bool)
  /-- Other parts of the program open and close descriptors of their own. -/
  | openOther (fd : ℕ)
  | closeOther (fd : ℕ)

variable {Thread : Type}

def NetworkAction.side : NetworkAction Thread → Option Side
  | .loop side | .resolved side _ | .opened side _ | .connected side _ | .pollFails side
  | .pollTimeout side | .pollReady side | .received side _ => some side
  | .send _ | .sender _ | .written _ _ | .openOther _ | .closeOther _ => none

def NetworkAction.who : NetworkAction Thread → Option (Option Thread)
  | .send who | .sender who | .written who _ => some who
  | .loop _ | .resolved _ _ | .opened _ _ | .connected _ _ | .pollFails _ | .pollTimeout _
  | .pollReady _ | .received _ _ | .openOther _ | .closeOther _ => none

/-- `LibOtiKiosk_Init`, for one of the sockets. -/
def initChannel (isLocal addrTooLong : Bool) : Channel Thread where
  isTcp := !isLocal
  addrTooLong := addrTooLong
  sockfd := none
  mutex := none
  pc := .lock
  socket := none
  locks := 0
  unlocks := 0

namespace Channel

/-- Reading `sockfd`. -/
def ref (c : Channel Thread) : Ref := ⟨c.sockfd, c.socket⟩

/-- Where opening the socket begins. -/
def openPc (c : Channel Thread) : LoopPc := if c.isTcp then .resolve else .testPath

end Channel

namespace Network

def init (isLocal : Bool) (addrTooLong : Side → Bool) : Network Thread where
  channel side := initChannel isLocal (addrTooLong side)
  senders _ := .idle
  table _ := none
  sockets := 0
  closed := []

def setChannel (s : Network Thread) (side : Side) (c : Channel Thread) : Network Thread :=
  { s with channel := Function.update s.channel side c }

def goto (s : Network Thread) (side : Side) (pc : LoopPc) : Network Thread :=
  s.setChannel side { s.channel side with pc := pc }

def close (s : Network Thread) (fd : Option ℕ) : Network Thread :=
  { s with
    table := s.table.free fd
    closed := ((fd.bind s.table).map (·.socket)).toList ++ s.closed }

def openFd (s : Network Thread) (owner : Option Side) (fd : ℕ) : Network Thread :=
  { s with
    table := s.table.take fd ⟨s.sockets, owner, false⟩
    sockets := s.sockets + 1 }

/-- `sockfd = -1` -/
def clearFd (s : Network Thread) (side : Side) : Network Thread :=
  s.setChannel side { s.channel side with sockfd := none, socket := none }

def takeMutex (s : Network Thread) (side : Side) (holder : Holder Thread) : Network Thread :=
  s.setChannel side { s.channel side with mutex := some holder }

def releaseMutex (s : Network Thread) (side : Side) : Network Thread :=
  s.setChannel side { s.channel side with mutex := none }

section

variable (s : Network Thread) {side side' : Side}

@[simp] theorem setChannel_self (c : Channel Thread) : (s.setChannel side c).channel side = c := by
  show Function.update s.channel side c side = c
  rw [Function.update_self]

theorem setChannel_ne (h : side' ≠ side) (c : Channel Thread) :
    (s.setChannel side c).channel side' = s.channel side' := by
  show Function.update s.channel side c side' = s.channel side'
  rw [Function.update_of_ne h]

@[simp] theorem goto_self (pc : LoopPc) :
    (s.goto side pc).channel side = { s.channel side with pc := pc } := setChannel_self s _

@[simp] theorem clearFd_self :
    (s.clearFd side).channel side = { s.channel side with sockfd := none, socket := none } :=
  setChannel_self s _

end

variable [DecidableEq Thread]

def setSender (s : Network Thread) (who : Option Thread) (pc : SenderPc) : Network Thread :=
  { s with senders := Function.update s.senders who pc }

@[simp] theorem setSender_self (s : Network Thread) (who : Option Thread) (pc : SenderPc) :
    (s.setSender who pc).senders who = pc := by
  show Function.update s.senders who pc who = pc
  rw [Function.update_self]

theorem setSender_ne (s : Network Thread) {who who' : Option Thread} (h : who' ≠ who)
    (pc : SenderPc) : (s.setSender who pc).senders who' = s.senders who' := by
  show Function.update s.senders who pc who' = s.senders who'
  rw [Function.update_of_ne h]

def loopStep (s : Network Thread) (side : Side) : Option (Network Thread) :=
  let c := s.channel side
  match c.pc with
  | .lock =>
      if c.mutex = none then
        some (s.setChannel side
          { c with mutex := some .loop, pc := .testFd, locks := c.locks + 1 })
      else none
  | .testFd => some (s.goto side (if c.sockfd = none then c.openPc else .readShutdown))
  | .readShutdown => some (s.goto side (.shutdown c.ref))
  | .shutdown _ => some (s.goto side .readClose)
  | .readClose => some (s.goto side (.close c.ref))
  | .close r => some ((s.close r.fd).goto side .clear)
  | .clear => some ((s.clearFd side).goto side c.openPc)
  | .testPath => some (s.goto side (if c.addrTooLong then .unlockRetry else .socket))
  | .testSocket => some (s.goto side (if c.sockfd = none then .unlockRetry else .readConnect))
  | .readConnect => some (s.goto side (.connect c.ref))
  | .readFailed => some (s.goto side (.closeFailed c.ref))
  | .closeFailed r => some ((s.close r.fd).goto side .clearFailed)
  | .clearFailed => some ((s.clearFd side).goto side .unlockRetry)
  | .unlockRetry =>
      some (s.setChannel side { c with mutex := none, pc := .lock, unlocks := c.unlocks + 1 })
  | .unlockConnected =>
      some (s.setChannel side { c with mutex := none, pc := .testInner, unlocks := c.unlocks + 1 })
  | .testInner => some (s.goto side (if c.sockfd = none then .lock else .readInner))
  | .readInner => some (s.goto side (.poll c.ref))
  | .recvCb =>
      -- the acknowledgement is sent by this thread
      if side = .commands ∧ s.senders none ≠ .idle then none else some (s.goto side .testInner)
  | .resolve | .socket | .connect _ | .poll _ | .read _ => none

def senderStep (s : Network Thread) (who : Option Thread) : Option (Network Thread) :=
  let c := s.channel .commands
  match s.senders who with
  | .test => some (s.setSender who (if c.sockfd = none then .idle else .readWrite))
  | .readWrite => some (s.setSender who (.write c.ref))
  | .lock failed =>
      if c.mutex = none then
        some ((s.takeMutex .commands (.sender who)).setSender who (.readClose failed))
      else none
  | .readClose failed => some (s.setSender who (.close failed c.ref))
  | .close _ r => some ((s.close r.fd).setSender who .clear)
  | .clear => some ((s.clearFd .commands).setSender who .unlock)
  | .unlock => some ((s.releaseMutex .commands).setSender who .idle)
  | .idle | .write _ => none

def IsOpen (s : Network Thread) (r : Ref) : Prop := ((r.fd.bind s.table).isSome) = true

instance (s : Network Thread) (r : Ref) : Decidable (s.IsOpen r) :=
  inferInstanceAs (Decidable (_ = true))

def step (s : Network Thread) : NetworkAction Thread → Option (Network Thread)
  | .loop side => s.loopStep side
  | .resolved side found =>
      match (s.channel side).pc with
      | .resolve => some (s.goto side (if found then .socket else .unlockRetry))
      | _ => none
  | .opened side fd =>
      match (s.channel side).pc with
      | .socket =>
          match fd with
          | none => some ((s.clearFd side).goto side .testSocket)
          | some n =>
              if s.table n = none then
                some ((s.openFd (some side) n).setChannel side
                  { s.channel side with sockfd := some n, socket := some s.sockets, pc := .testSocket })
              else none
      | _ => none
  | .connected side ok =>
      match (s.channel side).pc with
      | .connect r =>
          match ok, r.fd with
          | false, _ => some (s.goto side .readFailed)
          | true, none => none
          | true, some n =>
              if s.IsOpen r then
                some ({ s with table := s.table.alter n ({ · with connected := true }) }.goto side
                  .unlockConnected)
              else none
      | _ => none
  | .pollFails side =>
      match (s.channel side).pc with
      | .poll _ => some (s.goto side .lock)
      | _ => none
  | .pollTimeout side =>
      match (s.channel side).pc with
      | .poll _ => some (s.goto side .testInner)
      | _ => none
  | .pollReady side =>
      match (s.channel side).pc with
      -- a negative descriptor is never ready, and a closed one always is
      | .poll r => if r.fd = none then none else some (s.goto side (.read r))
      | _ => none
  | .received side data =>
      match (s.channel side).pc with
      | .read r =>
          if data = true then if s.IsOpen r then some (s.goto side .recvCb) else none
          else some (s.goto side .lock)
      | _ => none
  | .send who =>
      if s.senders who = .idle ∧ (who = none → (s.channel .commands).pc = .recvCb) then
        some (s.setSender who .test)
      else none
  | .sender who => s.senderStep who
  | .written who all =>
      match s.senders who with
      | .write r =>
          if all = true then if s.IsOpen r then some (s.setSender who .idle) else none
          else some (s.setSender who (.lock r))
      | _ => none
  | .openOther fd => if s.table fd = none then some (s.openFd none fd) else none
  | .closeOther fd =>
      match s.table fd with
      | some d => if d.owner = none then some { s with table := s.table.free (some fd) } else none
      | none => none

def machine : Machine (Network Thread) (NetworkAction Thread) where
  start s := ∃ isLocal addrTooLong, s = init isLocal addrTooLong
  step := step

/-! ### What a step can do -/

inductive Move (s : Network Thread) (c : Channel Thread) : LoopPc → LoopPc → Prop
  | connected {n : ℕ} : c.sockfd = some n → Move s c .testFd .readShutdown
  | unconnected : c.sockfd = none → Move s c .testFd c.openPc
  | readShutdown : Move s c .readShutdown (.shutdown c.ref)
  | shutdown (r : Ref) : Move s c (.shutdown r) .readClose
  | readClose : Move s c .readClose (.close c.ref)
  | unresolved : Move s c .resolve .unlockRetry
  | resolved : Move s c .resolve .socket
  | tooLong : Move s c .testPath .unlockRetry
  | fits : Move s c .testPath .socket
  | noSocket : c.sockfd = none → Move s c .testSocket .unlockRetry
  | socket {n : ℕ} : c.sockfd = some n → Move s c .testSocket .readConnect
  | readConnect : Move s c .readConnect (.connect c.ref)
  | refused (r : Ref) : Move s c (.connect r) .readFailed
  | readFailed : Move s c .readFailed (.closeFailed c.ref)
  | gone : c.sockfd = none → Move s c .testInner .lock
  | present {n : ℕ} : c.sockfd = some n → Move s c .testInner .readInner
  | readInner : Move s c .readInner (.poll c.ref)
  | pollFails (r : Ref) : Move s c (.poll r) .lock
  | pollTimeout (r : Ref) : Move s c (.poll r) .testInner
  | pollReady (r : Ref) : r.fd ≠ none → Move s c (.poll r) (.read r)
  | received (r : Ref) : s.IsOpen r → Move s c (.read r) .recvCb
  | hungUp (r : Ref) : Move s c (.read r) .lock
  | handled : Move s c .recvCb .testInner

inductive SenderMove (s : Network Thread) (c : Channel Thread) : SenderPc → SenderPc → Prop
  | call : SenderMove s c .idle .test
  | refused : c.sockfd = none → SenderMove s c .test .idle
  | present {n : ℕ} : c.sockfd = some n → SenderMove s c .test .readWrite
  | readWrite : SenderMove s c .readWrite (.write c.ref)
  | written (r : Ref) : s.IsOpen r → SenderMove s c (.write r) .idle
  | writeFails (r : Ref) : SenderMove s c (.write r) (.lock r)
  | readClose (failed : Ref) : SenderMove s c (.readClose failed) (.close failed c.ref)

inductive Transition (s : Network Thread) (a : NetworkAction Thread) : Network Thread → Prop
  | goto {side : Side} {pc : LoopPc} : a.side = some side →
      Move s (s.channel side) (s.channel side).pc pc → Transition s a (s.goto side pc)
  | lock {side : Side} : a.side = some side → (s.channel side).pc = .lock →
      (s.channel side).mutex = none →
      Transition s a (s.setChannel side { s.channel side with
        mutex := some .loop, pc := .testFd, locks := (s.channel side).locks + 1 })
  | close {side : Side} {r : Ref} : a.side = some side → (s.channel side).pc = .close r →
      Transition s a ((s.close r.fd).goto side .clear)
  | clear {side : Side} : a.side = some side → (s.channel side).pc = .clear →
      Transition s a ((s.clearFd side).goto side (s.channel side).openPc)
  | noSocket {side : Side} : a.side = some side → (s.channel side).pc = .socket →
      Transition s a ((s.clearFd side).goto side .testSocket)
  | socket {side : Side} {n : ℕ} : a.side = some side → (s.channel side).pc = .socket →
      s.table n = none →
      Transition s a ((s.openFd (some side) n).setChannel side
        { s.channel side with sockfd := some n, socket := some s.sockets, pc := .testSocket })
  | connect {side : Side} {r : Ref} {n : ℕ} : a.side = some side →
      (s.channel side).pc = .connect r → r.fd = some n →
      Transition s a ({ s with table := s.table.alter n ({ · with connected := true }) }.goto side
        .unlockConnected)
  | closeFailed {side : Side} {r : Ref} : a.side = some side →
      (s.channel side).pc = .closeFailed r →
      Transition s a ((s.close r.fd).goto side .clearFailed)
  | clearFailed {side : Side} : a.side = some side → (s.channel side).pc = .clearFailed →
      Transition s a ((s.clearFd side).goto side .unlockRetry)
  | unlockRetry {side : Side} : a.side = some side → (s.channel side).pc = .unlockRetry →
      Transition s a (s.setChannel side { s.channel side with
        mutex := none, pc := .lock, unlocks := (s.channel side).unlocks + 1 })
  | unlockConnected {side : Side} : a.side = some side →
      (s.channel side).pc = .unlockConnected →
      Transition s a (s.setChannel side { s.channel side with
        mutex := none, pc := .testInner, unlocks := (s.channel side).unlocks + 1 })
  | senderGoto {who : Option Thread} {pc : SenderPc} : a.who = some who →
      SenderMove s (s.channel .commands) (s.senders who) pc → Transition s a (s.setSender who pc)
  | senderLock {who : Option Thread} {failed : Ref} : a.who = some who →
      s.senders who = .lock failed → (s.channel .commands).mutex = none →
      Transition s a ((s.takeMutex .commands (.sender who)).setSender who (.readClose failed))
  | senderClose {who : Option Thread} {failed r : Ref} : a.who = some who →
      s.senders who = .close failed r → Transition s a ((s.close r.fd).setSender who .clear)
  | senderClear {who : Option Thread} : a.who = some who → s.senders who = .clear →
      Transition s a ((s.clearFd .commands).setSender who .unlock)
  | senderUnlock {who : Option Thread} : a.who = some who → s.senders who = .unlock →
      Transition s a ((s.releaseMutex .commands).setSender who .idle)
  | openOther {n : ℕ} : a.side = none → a.who = none → s.table n = none →
      Transition s a (s.openFd none n)
  | closeOther {n : ℕ} {d : Descriptor} : a.side = none → a.who = none → s.table n = some d →
      d.owner = none → Transition s a { s with table := s.table.free (some n) }

variable {s s' : Network Thread}

theorem transition_of_loopStep {side : Side} (h : s.loopStep side = some s') :
    Transition s (.loop side) s' := by
  have hgoto : ∀ {pc pc' : LoopPc}, (s.channel side).pc = pc → Move s (s.channel side) pc pc' →
      Transition s (.loop side) (s.goto side pc') := by
    rintro pc pc' rfl hmove
    exact .goto rfl hmove
  rw [loopStep] at h
  cases hpc : (s.channel side).pc with
  | lock =>
      simp only [hpc] at h
      split_ifs at h with hmutex
      cases h
      exact .lock rfl hpc hmutex
  | testFd =>
      simp only [hpc, Option.some.injEq] at h
      subst h
      cases hfd : (s.channel side).sockfd with
      | none => exact hgoto hpc (.unconnected hfd)
      | some n => exact hgoto hpc (.connected hfd)
  | readShutdown =>
      simp only [hpc, Option.some.injEq] at h
      subst h
      exact hgoto hpc .readShutdown
  | shutdown r =>
      simp only [hpc, Option.some.injEq] at h
      subst h
      exact hgoto hpc (.shutdown r)
  | readClose =>
      simp only [hpc, Option.some.injEq] at h
      subst h
      exact hgoto hpc .readClose
  | close r =>
      simp only [hpc, Option.some.injEq] at h
      subst h
      exact .close rfl hpc
  | clear =>
      simp only [hpc, Option.some.injEq] at h
      subst h
      exact .clear rfl hpc
  | testPath =>
      simp only [hpc, Option.some.injEq] at h
      subst h
      cases (s.channel side).addrTooLong with
      | true => exact hgoto hpc .tooLong
      | false => exact hgoto hpc .fits
  | testSocket =>
      simp only [hpc, Option.some.injEq] at h
      subst h
      cases hfd : (s.channel side).sockfd with
      | none => exact hgoto hpc (.noSocket hfd)
      | some n => exact hgoto hpc (.socket hfd)
  | readConnect =>
      simp only [hpc, Option.some.injEq] at h
      subst h
      exact hgoto hpc .readConnect
  | readFailed =>
      simp only [hpc, Option.some.injEq] at h
      subst h
      exact hgoto hpc .readFailed
  | closeFailed r =>
      simp only [hpc, Option.some.injEq] at h
      subst h
      exact .closeFailed rfl hpc
  | clearFailed =>
      simp only [hpc, Option.some.injEq] at h
      subst h
      exact .clearFailed rfl hpc
  | unlockRetry =>
      simp only [hpc, Option.some.injEq] at h
      subst h
      exact .unlockRetry rfl hpc
  | unlockConnected =>
      simp only [hpc, Option.some.injEq] at h
      subst h
      exact .unlockConnected rfl hpc
  | testInner =>
      simp only [hpc, Option.some.injEq] at h
      subst h
      cases hfd : (s.channel side).sockfd with
      | none => exact hgoto hpc (.gone hfd)
      | some n => exact hgoto hpc (.present hfd)
  | readInner =>
      simp only [hpc, Option.some.injEq] at h
      subst h
      exact hgoto hpc .readInner
  | recvCb =>
      simp only [hpc] at h
      split_ifs at h
      cases h
      exact hgoto hpc .handled
  | resolve | socket | connect r | poll r | read r =>
      rw [hpc] at h
      cases h

theorem transition_of_senderStep {who : Option Thread} (h : s.senderStep who = some s') :
    Transition s (.sender who) s' := by
  have hgoto : ∀ {pc pc' : SenderPc}, s.senders who = pc →
      SenderMove s (s.channel .commands) pc pc' →
      Transition s (.sender who) (s.setSender who pc') := by
    rintro pc pc' rfl hmove
    exact .senderGoto rfl hmove
  rw [senderStep] at h
  cases hpc : s.senders who with
  | idle | write r =>
      rw [hpc] at h
      cases h
  | test =>
      simp only [hpc, Option.some.injEq] at h
      subst h
      cases hfd : (s.channel .commands).sockfd with
      | none => exact hgoto hpc (.refused hfd)
      | some n => exact hgoto hpc (.present hfd)
  | readWrite =>
      simp only [hpc, Option.some.injEq] at h
      subst h
      exact hgoto hpc .readWrite
  | lock failed =>
      simp only [hpc] at h
      split_ifs at h with hmutex
      cases h
      exact .senderLock rfl hpc hmutex
  | readClose failed =>
      simp only [hpc, Option.some.injEq] at h
      subst h
      exact hgoto hpc (.readClose failed)
  | close failed r =>
      simp only [hpc, Option.some.injEq] at h
      subst h
      exact .senderClose rfl hpc
  | clear =>
      simp only [hpc, Option.some.injEq] at h
      subst h
      exact .senderClear rfl hpc
  | unlock =>
      simp only [hpc, Option.some.injEq] at h
      subst h
      exact .senderUnlock rfl hpc

theorem transition_of_opened {side : Side} {fd : Option ℕ}
    (h : s.step (.opened side fd) = some s') : Transition s (.opened side fd) s' := by
  simp only [step] at h
  split at h
  · next hpc =>
      cases fd with
      | none =>
          cases h
          exact .noSocket rfl hpc
      | some n =>
          simp only at h
          split_ifs at h with hfree
          cases h
          exact .socket rfl hpc hfree
  · cases h

theorem transition_of_connected {side : Side} {ok : Bool}
    (h : s.step (.connected side ok) = some s') : Transition s (.connected side ok) s' := by
  rw [step] at h
  split at h
  · next r hpc =>
      have hmove : Move s (s.channel side) (s.channel side).pc .readFailed := by
        rw [hpc]
        exact .refused r
      cases ok with
      | false =>
          cases h
          exact .goto rfl hmove
      | true =>
          cases hfd : r.fd with
          | none =>
              simp only [hfd] at h
              cases h
          | some n =>
              simp only [hfd] at h
              split_ifs at h
              cases h
              exact .connect rfl hpc hfd
  · cases h

theorem transition_of_step {a : NetworkAction Thread} (h : machine.step s a = some s') :
    Transition s a s' := by
  change s.step a = some s' at h
  have hgoto : ∀ {a : NetworkAction Thread} {side : Side} {pc pc' : LoopPc}, a.side = some side →
      (s.channel side).pc = pc → Move s (s.channel side) pc pc' →
      Transition s a (s.goto side pc') := by
    rintro a side pc pc' ha rfl hmove
    exact .goto ha hmove
  have hsender : ∀ {a : NetworkAction Thread} {who : Option Thread} {pc pc' : SenderPc},
      a.who = some who → s.senders who = pc → SenderMove s (s.channel .commands) pc pc' →
      Transition s a (s.setSender who pc') := by
    rintro a who pc pc' ha rfl hmove
    exact .senderGoto ha hmove
  cases a with
  | loop side => exact transition_of_loopStep h
  | opened side fd => exact transition_of_opened h
  | connected side ok => exact transition_of_connected h
  | resolved side found =>
      rw [step] at h
      split at h
      · next hpc =>
          cases h
          cases found with
          | true => exact hgoto rfl hpc .resolved
          | false => exact hgoto rfl hpc .unresolved
      · cases h
  | pollFails side =>
      rw [step] at h
      split at h
      · next r hpc =>
          cases h
          exact hgoto rfl hpc (.pollFails r)
      · cases h
  | pollTimeout side =>
      rw [step] at h
      split at h
      · next r hpc =>
          cases h
          exact hgoto rfl hpc (.pollTimeout r)
      · cases h
  | pollReady side =>
      rw [step] at h
      split at h
      · next r hpc =>
          split_ifs at h with hfd
          cases h
          exact hgoto rfl hpc (.pollReady r hfd)
      · cases h
  | received side data =>
      rw [step] at h
      split at h
      · next r hpc =>
          split_ifs at h with hdata hopen
          · cases h
            exact hgoto rfl hpc (.received r hopen)
          · cases h
            exact hgoto rfl hpc (.hungUp r)
      · cases h
  | send who =>
      rw [step] at h
      split_ifs at h with hidle
      cases h
      exact hsender rfl hidle.1 .call
  | sender who => exact transition_of_senderStep h
  | written who all =>
      rw [step] at h
      split at h
      · next r hpc =>
          split_ifs at h with hall hopen
          · cases h
            exact hsender rfl hpc (.written r hopen)
          · cases h
            exact hsender rfl hpc (.writeFails r)
      · cases h
  | openOther fd =>
      rw [step] at h
      split_ifs at h with hfree
      cases h
      exact .openOther rfl rfl hfree
  | closeOther fd =>
      rw [step] at h
      split at h
      · next d hd =>
          split_ifs at h with howner
          cases h
          exact .closeOther rfl rfl hd howner
      · cases h

end Network

end OtiKiosk
