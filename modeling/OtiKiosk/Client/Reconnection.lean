import OtiKiosk.Client.Bookkeeping

/-!
That the connections come back. Whatever has happened, both sockets can be connected
again, if from then on addresses are resolved, sockets are opened, and no call fails on
a descriptor that is open; nobody needs to call `send_to_kiosk` for that. The way
there is built backwards, for one socket at a time.
-/

namespace OtiKiosk

variable {Thread : Type}

def NetworkAction.channel : NetworkAction Thread → Option Side
  | .loop side | .resolved side _ | .opened side _ | .connected side _ | .pollFails side
  | .pollTimeout side | .pollReady side | .received side _ => some side
  | .send _ | .sender _ | .written _ _ => some .commands
  | .openOther _ | .closeOther _ => none

namespace Network

/-- Nothing fails without need. -/
def Cooperates (s : Network Thread) : NetworkAction Thread → Prop
  | .loop _ | .pollTimeout _ | .pollReady _ | .sender _ => True
  | .resolved _ found => found = true
  | .opened _ fd => fd ≠ none
  | .connected side ok => ok = true ∨ ∀ r, (s.channel side).pc = .connect r → ¬s.IsOpen r
  | .received side data => data = true ∨ ∀ r, (s.channel side).pc = .read r → ¬s.IsOpen r
  | .written who all => all = true ∨ ∀ r, s.senders who = .write r → ¬s.IsOpen r
  | .pollFails _ | .send _ | .openOther _ | .closeOther _ => False

/-- Only one socket is worked on. -/
def On (side : Side) (s : Network Thread) (a : NetworkAction Thread) : Prop :=
  a.channel = some side ∧ s.Cooperates a

def Up (side : Side) (s : Network Thread) : Prop :=
  (s.channel side).pc = .testInner ∧ (s.channel side).mutex = none ∧ (s.channel side).sockfd ≠ none

variable [DecidableEq Thread]

structure Ready (s : Network Thread) (side : Side) : Prop where
  reachable : machine.Reachable s
  path : (s.channel side).isTcp = false → (s.channel side).addrTooLong = false

variable {s s' : Network Thread} {side side' : Side} {a : NetworkAction Thread}

def SameOptions (s s' : Network Thread) : Prop := ∀ side,
  (s'.channel side).isTcp = (s.channel side).isTcp ∧
    (s'.channel side).addrTooLong = (s.channel side).addrTooLong

omit [DecidableEq Thread] in
theorem SameOptions.refl (s : Network Thread) : SameOptions s s := fun _ => ⟨rfl, rfl⟩

omit [DecidableEq Thread] in
theorem SameOptions.trans {s'' : Network Thread} (h : SameOptions s s') (h' : SameOptions s' s'') :
    SameOptions s s'' :=
  fun side => ⟨(h' side).1.trans (h side).1, (h' side).2.trans (h side).2⟩

omit [DecidableEq Thread] in
theorem sameOptions_setChannel (s : Network Thread) {c : Channel Thread}
    (htcp : c.isTcp = (s.channel side).isTcp)
    (hlong : c.addrTooLong = (s.channel side).addrTooLong) :
    SameOptions s (s.setChannel side c) := by
  intro side'
  by_cases hside : side' = side
  · subst hside
    rw [setChannel_self]
    exact ⟨htcp, hlong⟩
  · rw [setChannel_ne s hside]
    exact ⟨rfl, rfl⟩

omit [DecidableEq Thread] in
theorem sameOptions_goto (s : Network Thread) (side : Side) (pc : LoopPc) :
    SameOptions s (s.goto side pc) := sameOptions_setChannel s rfl rfl

omit [DecidableEq Thread] in
theorem sameOptions_cleared (s : Network Thread) (side : Side) (pc : LoopPc) :
    SameOptions s ((s.clearFd side).goto side pc) := by
  have hclear : SameOptions s (s.clearFd side) := sameOptions_setChannel s rfl rfl
  exact hclear.trans (sameOptions_goto _ side pc)

theorem sameOptions_step (hs : Transition s a s') : SameOptions s s' := by
  cases hs with
  | goto _ _ => exact sameOptions_goto s _ _
  | lock _ _ _ => exact sameOptions_setChannel s rfl rfl
  | close _ _ => exact sameOptions_goto (s.close _) _ _
  | clear _ _ => exact sameOptions_cleared s _ _
  | noSocket _ _ => exact sameOptions_cleared s _ _
  | socket _ _ _ => exact sameOptions_setChannel (s.openFd _ _) rfl rfl
  | connect _ _ _ => exact sameOptions_goto { s with table := _ } _ _
  | closeFailed _ _ => exact sameOptions_goto (s.close _) _ _
  | clearFailed _ _ => exact sameOptions_cleared s _ _
  | unlockRetry _ _ => exact sameOptions_setChannel s rfl rfl
  | unlockConnected _ _ => exact sameOptions_setChannel s rfl rfl
  | senderLock _ _ _ => exact sameOptions_setChannel s rfl rfl
  | senderClear _ _ => exact sameOptions_setChannel s rfl rfl
  | senderUnlock _ _ => exact sameOptions_setChannel s rfl rfl
  | _ => exact .refl s

theorem Ready.step (h : Ready s side) (hs : machine.step s a = some s') : Ready s' side := by
  obtain ⟨htcp, hlong⟩ := sameOptions_step (transition_of_step hs) side
  refine ⟨h.reachable.leads (.head trivial hs .refl), ?_⟩
  rw [htcp, hlong]
  exact h.path

theorem few_step (h : s.table.Few) (hs : Transition s a s') : s'.table.Few := by
  cases hs with
  | close _ _ | closeFailed _ _ | senderClose _ _ => exact h.free _
  | closeOther _ _ _ _ => exact h.free (some _)
  | socket _ _ _ | openOther _ _ _ => exact h.take _ _
  | connect _ _ _ => exact h.alter _ _
  | _ => exact h

/-- There is always a number that can be handed out. -/
theorem exists_spare (h : machine.Reachable s) : ∃ n, s.table n = none := by
  have hfew : s.table.Few := by
    refine h.invariant (I := fun s => s.table.Few) ?_ fun s a s' hI _ hs =>
      few_step hI (transition_of_step hs)
    rintro s ⟨isLocal, addrTooLong, rfl⟩
    exact Slots.few_empty
  exact hfew.exists_empty

abbrev Hope (side : Side) (s : Network Thread) : Prop := machine.Can (On side) (Up side) s

/-- One step of a continuation. -/
theorem hope_next {t : Network Thread} (h : Ready s side) (hg : On side s a)
    (hs : machine.step s a = some t) (hnext : Ready t side → Hope side t) : Hope side s :=
  (hnext (h.step hs)).of_step hg hs

/-- The next step of the loop. -/
theorem hope_loop {t : Network Thread} (h : Ready s side) (hs : s.loopStep side = some t)
    (hnext : Ready t side → Hope side t) : Hope side s :=
  hope_next (a := .loop side) h ⟨rfl, trivial⟩ hs hnext

/-- The loop goes on, and changes nothing else. -/
theorem hope_goto (h : Ready s side) (pc : LoopPc) (hs : s.loopStep side = some (s.goto side pc))
    (hnext : Ready (s.goto side pc) side → Hope side (s.goto side pc)) : Hope side s :=
  hope_loop h hs hnext

/-! ### With the mutex -/

theorem hope_up (hpc : (s.channel side).pc = .testInner) (hmutex : (s.channel side).mutex = none)
    (hfd : (s.channel side).sockfd ≠ none) : Hope side s := .here ⟨hpc, hmutex, hfd⟩

/-- The socket is connected. -/
theorem hope_connected (h : Ready s side) (hpc : (s.channel side).pc = .unlockConnected)
    (hfd : (s.channel side).sockfd ≠ none) : Hope side s := by
  refine hope_loop (t := s.setChannel side { s.channel side with
    mutex := none, pc := .testInner, unlocks := (s.channel side).unlocks + 1 }) h ?_
    fun _ => hope_up ?_ ?_ ?_
  · simp only [loopStep, hpc]
  · rw [setChannel_self]
  · rw [setChannel_self]
  · rw [setChannel_self]
    exact hfd

theorem hope_connect (h : Ready s side) {r : Ref} (hpc : (s.channel side).pc = .connect r)
    (hopen : s.IsOpen r) : Hope side s := by
  cases hfd : r.fd with
  | none =>
      rw [IsOpen, hfd] at hopen
      cases hopen
  | some n =>
      have hheld : r.fd = (s.channel side).sockfd := by
        refine (booked h.reachable side).held r ?_
        rw [hpc]
        rfl
      refine hope_next (a := .connected side true) (t := Network.goto
        { s with table := s.table.alter n ({ · with connected := true }) } side .unlockConnected)
        h ⟨rfl, .inl rfl⟩ ?_ fun hready => hope_connected hready ?_ ?_
      · show s.step (.connected side true) = _
        simp only [step, hpc, hfd, hopen, if_true]
      · rw [goto_self]
      · rw [goto_self]
        show (s.channel side).sockfd ≠ none
        rw [← hheld, hfd]
        exact Option.some_ne_none n

theorem hope_readConnect (h : Ready s side) (hpc : (s.channel side).pc = .readConnect)
    (hopen : s.IsOpen (s.channel side).ref) : Hope side s := by
  refine hope_goto h (.connect (s.channel side).ref) ?_ fun hready => ?_
  · simp only [loopStep, hpc]
  · exact hope_connect hready (congrArg Channel.pc (goto_self s _)) hopen

theorem hope_testSocket (h : Ready s side) (hpc : (s.channel side).pc = .testSocket)
    (hopen : s.IsOpen (s.channel side).ref) : Hope side s := by
  have hfd : (s.channel side).sockfd ≠ none := by
    intro hnone
    rw [IsOpen, Channel.ref, hnone] at hopen
    cases hopen
  refine hope_goto h .readConnect ?_ fun hready => ?_
  · simp only [loopStep, hpc, if_neg hfd]
  · refine hope_readConnect hready (congrArg Channel.pc (goto_self s _)) ?_
    rw [goto_self]
    exact hopen

/-- A new socket. -/
theorem hope_socket (h : Ready s side) (hpc : (s.channel side).pc = .socket) : Hope side s := by
  obtain ⟨n, hfree⟩ := exists_spare h.reachable
  refine hope_next (a := .opened side (some n)) (t := (s.openFd (some side) n).setChannel side
    { s.channel side with sockfd := some n, socket := some s.sockets, pc := .testSocket })
    h ⟨rfl, Option.some_ne_none n⟩ ?_ fun hready => hope_testSocket hready ?_ ?_
  · show s.step (.opened side (some n)) = _
    simp only [step, hpc, hfree, if_true]
  · rw [setChannel_self]
  · rw [setChannel_self]
    show ((s.table.take n _) n).isSome = true
    rw [Slots.take_self]
    rfl

theorem hope_resolve (h : Ready s side) (hpc : (s.channel side).pc = .resolve) : Hope side s := by
  refine hope_next (a := .resolved side true) (t := s.goto side .socket) h ⟨rfl, rfl⟩ ?_
    fun hready => hope_socket hready (congrArg Channel.pc (goto_self s _))
  show s.step (.resolved side true) = _
  simp only [step, hpc, if_true]

/-- Where opening begins. -/
theorem hope_open (h : Ready s side) (hpc : (s.channel side).pc = (s.channel side).openPc) :
    Hope side s := by
  rw [Channel.openPc] at hpc
  by_cases htcp : (s.channel side).isTcp = true
  · rw [if_pos htcp] at hpc
    exact hope_resolve h hpc
  · rw [if_neg htcp] at hpc
    have hpath := h.path (Bool.eq_false_of_not_eq_true htcp)
    refine hope_goto h .socket ?_ fun hready =>
      hope_socket hready (congrArg Channel.pc (goto_self s _))
    simp only [loopStep, hpc, hpath, Bool.false_eq_true, if_false]

theorem hope_clear (h : Ready s side) (hpc : (s.channel side).pc = .clear) : Hope side s := by
  refine hope_loop h (t := (s.clearFd side).goto side (s.channel side).openPc) ?_
    fun hready => hope_open hready ?_
  · simp only [loopStep, hpc]
  · rw [goto_self, clearFd_self]
    rfl

theorem hope_close (h : Ready s side) {r : Ref} (hpc : (s.channel side).pc = .close r) :
    Hope side s := by
  refine hope_loop h (t := (s.close r.fd).goto side .clear) ?_ fun hready => hope_clear hready ?_
  · simp only [loopStep, hpc]
  · rw [goto_self]

theorem hope_readClose (h : Ready s side) (hpc : (s.channel side).pc = .readClose) :
    Hope side s := by
  refine hope_goto h (.close (s.channel side).ref) ?_ fun hready =>
    hope_close hready (congrArg Channel.pc (goto_self s _))
  simp only [loopStep, hpc]

theorem hope_shutdown (h : Ready s side) {r : Ref} (hpc : (s.channel side).pc = .shutdown r) :
    Hope side s := by
  refine hope_goto h .readClose ?_ fun hready =>
    hope_readClose hready (congrArg Channel.pc (goto_self s _))
  simp only [loopStep, hpc]

theorem hope_readShutdown (h : Ready s side) (hpc : (s.channel side).pc = .readShutdown) :
    Hope side s := by
  refine hope_goto h (.shutdown (s.channel side).ref) ?_ fun hready =>
    hope_shutdown hready (congrArg Channel.pc (goto_self s _))
  simp only [loopStep, hpc]

theorem hope_testFd (h : Ready s side) (hpc : (s.channel side).pc = .testFd) : Hope side s := by
  by_cases hfd : (s.channel side).sockfd = none
  · refine hope_goto h (s.channel side).openPc ?_ fun hready => hope_open hready ?_
    · simp only [loopStep, hpc, if_pos hfd]
    · rw [goto_self]
      rfl
  · refine hope_goto h .readShutdown ?_ fun hready =>
      hope_readShutdown hready (congrArg Channel.pc (goto_self s _))
    simp only [loopStep, hpc, if_neg hfd]

/-- The outer loop begins again. -/
theorem hope_lock (h : Ready s side) (hpc : (s.channel side).pc = .lock)
    (hmutex : (s.channel side).mutex = none) : Hope side s := by
  refine hope_loop h (t := s.setChannel side { s.channel side with
    mutex := some .loop, pc := .testFd, locks := (s.channel side).locks + 1 }) ?_
    fun hready => hope_testFd hready ?_
  · simp only [loopStep, hpc, if_pos hmutex]
  · rw [setChannel_self]

theorem hope_unlockRetry (h : Ready s side) (hpc : (s.channel side).pc = .unlockRetry) :
    Hope side s := by
  refine hope_loop h (t := s.setChannel side { s.channel side with
    mutex := none, pc := .lock, unlocks := (s.channel side).unlocks + 1 }) ?_
    fun hready => hope_lock hready ?_ ?_
  · simp only [loopStep, hpc]
  · rw [setChannel_self]
  · rw [setChannel_self]

theorem hope_clearFailed (h : Ready s side) (hpc : (s.channel side).pc = .clearFailed) :
    Hope side s := by
  refine hope_loop h (t := (s.clearFd side).goto side .unlockRetry) ?_
    fun hready => hope_unlockRetry hready ?_
  · simp only [loopStep, hpc]
  · rw [goto_self]

theorem hope_closeFailed (h : Ready s side) {r : Ref} (hpc : (s.channel side).pc = .closeFailed r) :
    Hope side s := by
  refine hope_loop h (t := (s.close r.fd).goto side .clearFailed) ?_
    fun hready => hope_clearFailed hready ?_
  · simp only [loopStep, hpc]
  · rw [goto_self]

theorem hope_readFailed (h : Ready s side) (hpc : (s.channel side).pc = .readFailed) :
    Hope side s := by
  refine hope_goto h (.closeFailed (s.channel side).ref) ?_ fun hready =>
    hope_closeFailed hready (congrArg Channel.pc (goto_self s _))
  simp only [loopStep, hpc]

theorem hope_testPath (h : Ready s side) (hpc : (s.channel side).pc = .testPath) : Hope side s := by
  cases hlong : (s.channel side).addrTooLong with
  | true =>
      refine hope_goto h .unlockRetry ?_ fun hready =>
        hope_unlockRetry hready (congrArg Channel.pc (goto_self s _))
      simp only [loopStep, hpc, hlong, if_true]
  | false =>
      refine hope_goto h .socket ?_ fun hready =>
        hope_socket hready (congrArg Channel.pc (goto_self s _))
      simp only [loopStep, hpc, hlong, Bool.false_eq_true, if_false]

/-- Connecting fails on a descriptor that is not open, and begins again. -/
theorem hope_refused (h : Ready s side) {r : Ref} (hpc : (s.channel side).pc = .connect r)
    (hopen : ¬s.IsOpen r) : Hope side s := by
  refine hope_next (a := .connected side false) (t := s.goto side .readFailed) h
    ⟨rfl, .inr fun r' hr' => ?_⟩ ?_ fun hready =>
      hope_readFailed hready (congrArg Channel.pc (goto_self s _))
  · obtain rfl : r = r' := LoopPc.connect.inj (hpc.symm.trans hr')
    exact hopen
  · show s.step (.connected side false) = _
    simp only [step, hpc]

theorem hope_readRefused (h : Ready s side) (hpc : (s.channel side).pc = .readConnect)
    (hopen : ¬s.IsOpen (s.channel side).ref) : Hope side s := by
  refine hope_goto h (.connect (s.channel side).ref) ?_ fun hready =>
    hope_refused hready (congrArg Channel.pc (goto_self s _)) hopen
  simp only [loopStep, hpc]

theorem hope_testRefused (h : Ready s side) (hpc : (s.channel side).pc = .testSocket)
    (hopen : ¬s.IsOpen (s.channel side).ref) : Hope side s := by
  by_cases hfd : (s.channel side).sockfd = none
  · refine hope_goto h .unlockRetry ?_ fun hready =>
      hope_unlockRetry hready (congrArg Channel.pc (goto_self s _))
    simp only [loopStep, hpc, if_pos hfd]
  · refine hope_goto h .readConnect ?_ fun hready =>
      hope_readRefused hready (congrArg Channel.pc (goto_self s _)) ?_
    · simp only [loopStep, hpc, if_neg hfd]
    · rw [goto_self]
      exact hopen

/-- In the inner loop, while nobody holds the mutex. -/
theorem hope_testInner (h : Ready s side) (hpc : (s.channel side).pc = .testInner)
    (hmutex : (s.channel side).mutex = none) : Hope side s := by
  by_cases hfd : (s.channel side).sockfd = none
  · refine hope_goto h .lock ?_ fun hready => hope_lock hready ?_ ?_
    · simp only [loopStep, hpc, if_pos hfd]
    · rw [goto_self]
    · rw [goto_self]
      exact hmutex
  · exact hope_up hpc hmutex hfd

theorem hope_unlockConnected (h : Ready s side) (hpc : (s.channel side).pc = .unlockConnected) :
    Hope side s := by
  refine hope_loop (t := s.setChannel side { s.channel side with
    mutex := none, pc := .testInner, unlocks := (s.channel side).unlocks + 1 }) h ?_
    fun hready => hope_testInner hready ?_ ?_
  · simp only [loopStep, hpc]
  · rw [setChannel_self]
  · rw [setChannel_self]

/-- While the loop holds the mutex, it goes on by itself. -/
theorem hope_locked (h : Ready s side) (hlocked : (s.channel side).pc.locked) : Hope side s := by
  cases hpc : (s.channel side).pc with
  | lock | testInner | readInner | poll r | read r | recvCb =>
      rw [hpc] at hlocked
      exact hlocked.elim
  | testFd => exact hope_testFd h hpc
  | readShutdown => exact hope_readShutdown h hpc
  | shutdown r => exact hope_shutdown h hpc
  | readClose => exact hope_readClose h hpc
  | close r => exact hope_close h hpc
  | clear => exact hope_clear h hpc
  | resolve => exact hope_resolve h hpc
  | testPath => exact hope_testPath h hpc
  | socket => exact hope_socket h hpc
  | testSocket =>
      by_cases hopen : s.IsOpen (s.channel side).ref
      · exact hope_testSocket h hpc hopen
      · exact hope_testRefused h hpc hopen
  | readConnect =>
      by_cases hopen : s.IsOpen (s.channel side).ref
      · exact hope_readConnect h hpc hopen
      · exact hope_readRefused h hpc hopen
  | connect r =>
      by_cases hopen : s.IsOpen r
      · exact hope_connect h hpc hopen
      · exact hope_refused h hpc hopen
  | readFailed => exact hope_readFailed h hpc
  | closeFailed r => exact hope_closeFailed h hpc
  | clearFailed => exact hope_clearFailed h hpc
  | unlockRetry => exact hope_unlockRetry h hpc
  | unlockConnected => exact hope_unlockConnected h hpc

/-! ### A sender -/

structure Released (who : Option Thread) (pc : LoopPc) (s : Network Thread) : Prop where
  pc : (s.channel .commands).pc = pc
  mutex : (s.channel .commands).mutex = none
  idle : s.senders who = .idle

abbrev Returns (who : Option Thread) (pc : LoopPc) (s : Network Thread) : Prop :=
  machine.Can (On .commands) (Released who pc) s

variable {who : Option Thread} {pc : LoopPc}

/-- The next step of the sender. -/
theorem Returns.of_sender {t : Network Thread} (h : Returns who pc t) (hs : s.senderStep who = some t) :
    Returns who pc s :=
  h.of_step (a := .sender who) ⟨rfl, trivial⟩ hs

theorem returns_unlock (hwho : s.senders who = .unlock) (hpc : (s.channel .commands).pc = pc) :
    Returns who pc s := by
  refine Returns.of_sender (t := (s.releaseMutex .commands).setSender who .idle) (.here ?_) ?_
  · refine ⟨?_, ?_, setSender_self _ who _⟩
    · show ((s.releaseMutex .commands).channel .commands).pc = pc
      rw [releaseMutex, setChannel_self]
      exact hpc
    · show ((s.releaseMutex .commands).channel .commands).mutex = none
      rw [releaseMutex, setChannel_self]
  · simp only [senderStep, hwho]

theorem returns_clear (hwho : s.senders who = .clear) (hpc : (s.channel .commands).pc = pc) :
    Returns who pc s := by
  refine Returns.of_sender (t := (s.clearFd .commands).setSender who .unlock)
    (returns_unlock (setSender_self _ who _) ?_) ?_
  · show ((s.clearFd .commands).channel .commands).pc = pc
    rw [clearFd_self]
    exact hpc
  · simp only [senderStep, hwho]

theorem returns_close {failed r : Ref} (hwho : s.senders who = .close failed r)
    (hpc : (s.channel .commands).pc = pc) : Returns who pc s := by
  refine Returns.of_sender (t := (s.close r.fd).setSender who .clear)
    (returns_clear (setSender_self _ who _) hpc) ?_
  simp only [senderStep, hwho]

theorem returns_readClose {failed : Ref} (hwho : s.senders who = .readClose failed)
    (hpc : (s.channel .commands).pc = pc) : Returns who pc s := by
  refine Returns.of_sender (t := s.setSender who (.close failed (s.channel .commands).ref))
    (returns_close (setSender_self _ who _) hpc) ?_
  simp only [senderStep, hwho]

/-- A sender that holds the mutex. -/
theorem returns_locked (hwho : (s.senders who).locked) (hpc : (s.channel .commands).pc = pc) :
    Returns who pc s := by
  cases hsender : s.senders who with
  | idle | test | readWrite | write r | lock failed =>
      rw [hsender] at hwho
      exact hwho.elim
  | readClose failed => exact returns_readClose hsender hpc
  | close failed r => exact returns_close hsender hpc
  | clear => exact returns_clear hsender hpc
  | unlock => exact returns_unlock hsender hpc

theorem returns_lock {failed : Ref} (hwho : s.senders who = .lock failed)
    (hmutex : (s.channel .commands).mutex = none) (hpc : (s.channel .commands).pc = pc) :
    Returns who pc s := by
  refine Returns.of_sender (t := (s.takeMutex .commands (.sender who)).setSender who
    (.readClose failed)) (returns_readClose (setSender_self _ who _) ?_) ?_
  · show ((s.takeMutex .commands (.sender who)).channel .commands).pc = pc
    rw [takeMutex, setChannel_self]
    exact hpc
  · simp only [senderStep, hwho, if_pos hmutex]

theorem returns_write {r : Ref} (hwho : s.senders who = .write r)
    (hmutex : (s.channel .commands).mutex = none) (hpc : (s.channel .commands).pc = pc) :
    Returns who pc s := by
  by_cases hopen : s.IsOpen r
  · refine Machine.Can.of_step (a := .written who true) (t := s.setSender who .idle)
      (.here ⟨hpc, hmutex, setSender_self s who _⟩) ⟨rfl, .inl rfl⟩ ?_
    show s.step (.written who true) = _
    simp only [step, hwho, if_true, if_pos hopen]
  · refine Machine.Can.of_step (a := .written who false) (t := s.setSender who (.lock r))
      (returns_lock (setSender_self s who _) hmutex hpc) ⟨rfl, .inr fun r' hr' => ?_⟩ ?_
    · obtain rfl : r = r' := SenderPc.write.inj (hwho.symm.trans hr')
      exact hopen
    · show s.step (.written who false) = _
      simp only [step, hwho, Bool.false_eq_true, if_false]

theorem returns_readWrite (hwho : s.senders who = .readWrite)
    (hmutex : (s.channel .commands).mutex = none) (hpc : (s.channel .commands).pc = pc) :
    Returns who pc s := by
  refine Returns.of_sender (t := s.setSender who (.write (s.channel .commands).ref))
    (returns_write (setSender_self s who _) hmutex hpc) ?_
  simp only [senderStep, hwho]

theorem returns_test (hwho : s.senders who = .test)
    (hmutex : (s.channel .commands).mutex = none) (hpc : (s.channel .commands).pc = pc) :
    Returns who pc s := by
  by_cases hfd : (s.channel .commands).sockfd = none
  · refine Returns.of_sender (t := s.setSender who .idle)
      (.here ⟨hpc, hmutex, setSender_self s who _⟩) ?_
    simp only [senderStep, hwho, if_pos hfd]
  · refine Returns.of_sender (t := s.setSender who .readWrite)
      (returns_readWrite (setSender_self s who _) hmutex hpc) ?_
    simp only [senderStep, hwho, if_neg hfd]

/-- Any sender can return once nobody else holds the mutex. -/
theorem returns_free (hmutex : (s.channel .commands).mutex = none)
    (hpc : (s.channel .commands).pc = pc) (who : Option Thread) : Returns who pc s := by
  cases hwho : s.senders who with
  | idle => exact .here ⟨hpc, hmutex, hwho⟩
  | test => exact returns_test hwho hmutex hpc
  | readWrite => exact returns_readWrite hwho hmutex hpc
  | write r => exact returns_write hwho hmutex hpc
  | lock failed => exact returns_lock hwho hmutex hpc
  | readClose failed => exact returns_readClose hwho hpc
  | close failed r => exact returns_close hwho hpc
  | clear => exact returns_clear hwho hpc
  | unlock => exact returns_unlock hwho hpc

/-! ### Without the mutex -/

theorem Ready.leads (h : Ready s side) {guard : Network Thread → NetworkAction Thread → Prop}
    (hl : machine.Leads guard s s') : Ready s' side :=
  hl.invariant (fun _ _ _ hI _ hs => Ready.step hI hs) h

theorem hope_recvCb (h : Ready s side) (hpc : (s.channel side).pc = .recvCb)
    (hmutex : (s.channel side).mutex = none) : Hope side s := by
  -- the callback has returned
  have hreturned : ∀ t : Network Thread, Ready t side → (t.channel side).pc = .recvCb →
      (t.channel side).mutex = none → (side = .commands → t.senders none = .idle) → Hope side t := by
    intro t ht hpc hmutex hidle
    refine hope_goto ht .testInner ?_ fun hready => hope_testInner hready ?_ ?_
    · simp only [loopStep, hpc]
      rw [if_neg]
      rintro ⟨hside, hbusy⟩
      exact hbusy (hidle hside)
    · rw [goto_self]
    · rw [goto_self]
      exact hmutex
  cases side with
  | reader => exact hreturned s h hpc hmutex fun hside => by cases hside
  | commands =>
      refine (returns_free hmutex hpc none).trans fun t hl ht => ?_
      exact hreturned t (h.leads hl) ht.pc ht.mutex fun _ => ht.idle

theorem hope_read (h : Ready s side) {r : Ref} (hpc : (s.channel side).pc = .read r)
    (hmutex : (s.channel side).mutex = none) : Hope side s := by
  by_cases hopen : s.IsOpen r
  · refine hope_next (a := .received side true) (t := s.goto side .recvCb) h ⟨rfl, .inl rfl⟩ ?_
      fun hready => hope_recvCb hready ?_ ?_
    · show s.step (.received side true) = _
      simp only [step, hpc, if_true, if_pos hopen]
    · rw [goto_self]
    · rw [goto_self]
      exact hmutex
  · refine hope_next (a := .received side false) (t := s.goto side .lock) h
      ⟨rfl, .inr fun r' hr' => ?_⟩ ?_ fun hready => hope_lock hready ?_ ?_
    · obtain rfl : r = r' := LoopPc.read.inj (hpc.symm.trans hr')
      exact hopen
    · show s.step (.received side false) = _
      simp only [step, hpc, Bool.false_eq_true, if_false]
    · rw [goto_self]
    · rw [goto_self]
      exact hmutex

theorem hope_poll (h : Ready s side) {r : Ref} (hpc : (s.channel side).pc = .poll r)
    (hmutex : (s.channel side).mutex = none) : Hope side s := by
  refine hope_next (a := .pollTimeout side) (t := s.goto side .testInner) h ⟨rfl, trivial⟩ ?_
    fun hready => hope_testInner hready ?_ ?_
  · show s.step (.pollTimeout side) = _
    simp only [step, hpc]
  · rw [goto_self]
  · rw [goto_self]
    exact hmutex

theorem hope_readInner (h : Ready s side) (hpc : (s.channel side).pc = .readInner)
    (hmutex : (s.channel side).mutex = none) : Hope side s := by
  refine hope_goto h (.poll (s.channel side).ref) ?_ fun hready =>
    hope_poll hready (r := (s.channel side).ref) ?_ ?_
  · simp only [loopStep, hpc]
  · rw [goto_self]
  · rw [goto_self]
    exact hmutex

/-- While nobody holds the mutex. -/
theorem hope_free (h : Ready s side) (hmutex : (s.channel side).mutex = none) : Hope side s := by
  cases hpc : (s.channel side).pc with
  | lock => exact hope_lock h hpc hmutex
  | testInner => exact hope_testInner h hpc hmutex
  | readInner => exact hope_readInner h hpc hmutex
  | poll r => exact hope_poll h hpc hmutex
  | read r => exact hope_read h hpc hmutex
  | recvCb => exact hope_recvCb h hpc hmutex
  | _ =>
      refine hope_locked h ?_
      rw [hpc]
      trivial

theorem hope_ready (h : Ready s side) : Hope side s := by
  have hbooked := booked h.reachable side
  cases hmutex : (s.channel side).mutex with
  | none => exact hope_free h hmutex
  | some holder =>
      cases holder with
      | loop => exact hope_locked h (hbooked.loop.mp hmutex)
      | sender who =>
          obtain ⟨rfl, hlocked⟩ := (hbooked.sender who).mp hmutex
          refine (returns_locked hlocked rfl).trans fun t hl ht => ?_
          exact hope_free (h.leads hl) ht.mutex

/-! ### Both sockets -/

omit [DecidableEq Thread] in
theorem channel_of_side (h : a.side = some side) : a.channel = some side := by
  cases a with
  | send _ | sender _ | written _ _ | openOther _ | closeOther _ => cases h
  | _ => exact h

omit [DecidableEq Thread] in
theorem channel_of_who (h : a.who = some who) : a.channel = some .commands := by
  cases a with
  | send _ | sender _ | written _ _ => rfl
  | _ => cases h

/-- What is done on one socket leaves the other one alone. -/
theorem channel_on (hside : side' ≠ side) (hg : On side s a) (hs : Transition s a s') :
    s'.channel side' = s.channel side' := by
  have hloop : ∀ {side''}, a.side = some side'' → side' ≠ side'' := by
    rintro side'' ha rfl
    exact hside (Option.some.inj ((channel_of_side ha).symm.trans hg.1))
  have hsender : ∀ {who}, a.who = some who → side' ≠ .commands := by
    rintro who ha rfl
    exact hside (Option.some.inj ((channel_of_who ha).symm.trans hg.1))
  cases hs with
  | goto ha _ => exact setChannel_ne _ (hloop ha) _
  | lock ha _ _ => exact setChannel_ne _ (hloop ha) _
  | close ha _ => exact setChannel_ne _ (hloop ha) _
  | clear ha _ => exact cleared_ne s (hloop ha) _
  | noSocket ha _ => exact cleared_ne s (hloop ha) _
  | socket ha _ _ => exact setChannel_ne _ (hloop ha) _
  | connect ha _ _ => exact setChannel_ne _ (hloop ha) _
  | closeFailed ha _ => exact setChannel_ne _ (hloop ha) _
  | clearFailed ha _ => exact cleared_ne s (hloop ha) _
  | unlockRetry ha _ => exact setChannel_ne _ (hloop ha) _
  | unlockConnected ha _ => exact setChannel_ne _ (hloop ha) _
  | senderLock ha _ _ => exact setChannel_ne _ (hsender ha) _
  | senderClear ha _ => exact setChannel_ne _ (hsender ha) _
  | senderUnlock ha _ => exact setChannel_ne _ (hsender ha) _
  | _ => rfl

theorem channel_leads (hside : side' ≠ side) (hl : machine.Leads (On side) s s') :
    s'.channel side' = s.channel side' :=
  hl.invariant (I := fun t => t.channel side' = s.channel side')
    (fun _ _ _ hI hg hs => (channel_on hside hg (transition_of_step hs)).trans hI) rfl

def Connected (s : Network Thread) (side : Side) : Prop :=
  (s.channel side).pc = .testInner ∧ ∃ n d, (s.channel side).sockfd = some n ∧
    s.table n = some d ∧ d.Of side ∧ d.connected = true

theorem Up.connected (h : Up side s) (hreachable : machine.Reachable s) : s.Connected side := by
  obtain ⟨hpc, hmutex, hfd⟩ := h
  refine ⟨hpc, ?_⟩
  exact ((booked hreachable side).kept.free hmutex).resolve_left fun hnone => hfd hnone.1

/-- **Reconnection**: from every state of every run, both sockets can be connected again, without
another call of `send_to_kiosk`, if nothing fails any more that need not fail. -/
theorem reconnects (h : machine.Reachable s)
    (hpath : ∀ side, (s.channel side).isTcp = false → (s.channel side).addrTooLong = false) :
    ∃ s', machine.Leads Cooperates s s' ∧ ∀ side, s'.Connected side := by
  have hready : ∀ side, Ready s side := fun side => ⟨h, hpath side⟩
  obtain ⟨t, hl, ht⟩ := hope_ready (hready .commands)
  obtain ⟨u, hl', hu⟩ := hope_ready ((hready .reader).leads hl)
  have hreachable : machine.Reachable u := (((hready .reader).leads hl).leads hl').reachable
  have hcommands : Up .commands u := by
    rw [Up, channel_leads (by decide) hl']
    exact ht
  refine ⟨u, (hl.mono fun _ _ hg => hg.2).trans (hl'.mono fun _ _ hg => hg.2), fun side => ?_⟩
  cases side with
  | commands => exact hcommands.connected hreachable
  | reader => exact hu.connected hreachable

def interrupted : List (NetworkAction Unit) :=
  [.loop .commands, .loop .commands] ++ connectCommands 3 ++ [.loop .commands, .loop .commands] ++
    [.send (some ()), .sender (some ()), .sender (some ()), .written (some ()) false] ++
    List.replicate 3 (.sender (some ()))

theorem reconnects_interrupted :
    ∃ s, machine.exec (fun _ _ => True) (init false fun _ => false) interrupted = some s ∧
      s.table 3 = none ∧ (s.channel .commands).sockfd = some 3 ∧
      ∃ s', machine.Leads Cooperates s s' ∧ ∀ side, s'.Connected side := by
  have hexec : (machine.exec (fun _ _ => True) (init false fun _ => false) interrupted).map
      (fun s => (s.table 3, (s.channel .commands).sockfd, (s.channel .commands).addrTooLong,
        (s.channel .reader).addrTooLong)) = some (none, some 3, false, false) := by
    decide +kernel
  obtain ⟨s, hs, hstate⟩ := Option.map_eq_some_iff.mp hexec
  simp only [Prod.mk.injEq] at hstate
  obtain ⟨htable, hfd, hcommands, hreader⟩ := hstate
  refine ⟨s, hs, htable, hfd, reconnects ⟨_, ⟨false, fun _ => false, rfl⟩, .of_exec hs⟩ ?_⟩
  intro side _
  cases side with
  | commands => exact hcommands
  | reader => exact hreader

end Network

end OtiKiosk
