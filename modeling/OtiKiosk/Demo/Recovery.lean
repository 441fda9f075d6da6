import OtiKiosk.Demo.Hang

/-!
From every other state the demo gets back to `ST_IDLE`, if the kiosk and the clock let
it. The way there is built backwards: first from the entry of each state, then from
the loop, then from the steps inside of a state.
-/

namespace OtiKiosk

namespace Demo

/-- The demo can get to `ST_IDLE`. -/
def Hope (s : Demo) : Prop := ∃ s', machine.Leads Friendly s s' ∧ s'.curState = .idle

def EntryHope (state : DemoState) : Prop :=
  ∀ s : Demo, s.pc = .assign → s.newState = state → Hope s

variable {s : Demo}

theorem hope_of_idle (h : s.curState = .idle) : Hope s := ⟨s, .refl, h⟩

theorem Hope.of_step {s' : Demo} {a : Action} (h : Hope s') (hg : Friendly s a)
    (hs : step s a = some s') : Hope s := by
  obtain ⟨t, hleads, ht⟩ := h
  exact ⟨t, .head hg hs hleads, ht⟩

theorem Hope.of_main {s' : Demo} (h : Hope s') (hs : s.mainStep = some s') : Hope s :=
  h.of_step (a := .main) trivial hs

/-- A command succeeds. -/
theorem Hope.of_result {s' : Demo} (h : Hope s') (hs : s.resultStep .ok = some s') : Hope s :=
  h.of_step (a := .result .ok) rfl hs

theorem Hope.of_callback {s' : Demo} (h : Hope s') (hs : step s .callback = some s') : Hope s :=
  h.of_step (a := .callback) trivial hs

/-- Time passes. -/
theorem hope_of_tick (n : ℕ) : ∀ {s : Demo}, Hope { s with clock := s.clock + n } → Hope s := by
  induction n with
  | zero => exact id
  | succ n ih =>
      intro s h
      refine Hope.of_step (a := .tick) (ih (s := { s with clock := s.clock + 1 }) ?_) trivial rfl
      have hclock : s.clock + 1 + n = s.clock + (n + 1) := by omega
      rw [hclock]
      exact h

theorem entryHope_idle : EntryHope .idle := by
  intro s hpc hnew
  refine Hope.of_main (hope_of_idle (s := { s with pc := entry s.newState, curState := s.newState })
    hnew) ?_
  rw [mainStep, hpc]

/-! ### From the loop to the entry of another state -/

theorem hope_stateTest (hpc : s.pc = .stateTest) (hne : s.newState ≠ s.curState)
    (h : EntryHope s.newState) : Hope s := by
  refine Hope.of_main (h { s with pc := .assign } rfl rfl) ?_
  rw [mainStep, hpc]
  exact congrArg some (by rw [if_pos hne])

theorem hope_lostTest (hpc : s.pc = .lostTest) (hstatus : s.lastStatus ≠ .noKiosk)
    (hne : s.newState ≠ s.curState) (h : EntryHope s.newState) : Hope s := by
  refine Hope.of_main (hope_stateTest (s := { s with pc := .stateTest }) rfl hne h) ?_
  rw [mainStep, hpc]
  exact congrArg some (by rw [if_neg hstatus])

theorem hope_checkStatus (hpc : s.pc = .checkStatus) (hne : s.newState ≠ s.curState)
    (h : EntryHope s.newState) : Hope s := by
  have hfound : Hope { s with pc := .lostTest, lastStatus := .ready } :=
    hope_lostTest rfl nofun hne h
  refine hfound.of_step (a := .status .ok .ready) ⟨rfl, nofun⟩ ?_
  rw [step, hpc]
  rfl

theorem hope_setIdle (hpc : s.pc = .setIdle) : Hope s := by
  by_cases hidle : s.curState = .idle
  · exact hope_of_idle hidle
  · have hnext : Hope { s with pc := .checkStatus, newState := .idle } :=
      hope_checkStatus rfl (fun hcur => hidle hcur.symm) entryHope_idle
    refine hnext.of_main ?_
    rw [mainStep, hpc]

theorem hope_expirationTest (hpc : s.pc = .expirationTest) (hne : s.newState ≠ s.curState)
    (h : EntryHope s.newState) : Hope s := by
  by_cases hexpired : 0 < s.timeStateExpiration ∧ s.timeStateExpiration < getTimeSec s.clock ∧
    s.curState = .message
  · refine Hope.of_main (hope_setIdle (s := { s with pc := .setIdle }) rfl) ?_
    rw [mainStep, hpc]
    exact congrArg some (by rw [if_pos hexpired])
  · refine Hope.of_main (hope_checkStatus (s := { s with pc := .checkStatus }) rfl hne h) ?_
    rw [mainStep, hpc]
    exact congrArg some (by rw [if_neg hexpired])

theorem hope_flagTest (hpc : s.pc = .flagTest) (hne : s.newState ≠ s.curState)
    (h : EntryHope s.newState) : Hope s := by
  by_cases hflag : s.paymentStatus = true ∧ s.curState = .idle
  · exact hope_of_idle hflag.2
  · refine Hope.of_main (hope_expirationTest (s := { s with pc := .expirationTest }) rfl hne h) ?_
    rw [mainStep, hpc]
    exact congrArg some (by rw [if_neg hflag])

theorem hope_service (hpc : s.pc = .service) (hne : s.newState ≠ s.curState)
    (h : EntryHope s.newState) : Hope s := by
  refine Hope.of_main (hope_flagTest (s := { s with pc := .flagTest }) rfl hne h) ?_
  rw [mainStep, hpc]

theorem hope_interruptTest (hpc : s.pc = .interruptTest) (hne : s.newState ≠ s.curState)
    (h : EntryHope s.newState) : Hope s := by
  by_cases hinterrupted : s.interrupted = true
  · refine Hope.of_main (hope_flagTest (s := { s with pc := .flagTest }) rfl hne h) ?_
    rw [mainStep, hpc]
    exact congrArg some (by rw [if_pos hinterrupted])
  · refine Hope.of_main (hope_service (s := { s with pc := .service }) rfl hne h) ?_
    rw [mainStep, hpc]
    exact congrArg some (by rw [if_neg hinterrupted])

/-- The loop takes up a change of state. -/
theorem hope_of_change (hturning : s.pc.turning) (hlost : ¬s.Lost)
    (hne : s.newState ≠ s.curState) (h : EntryHope s.newState) : Hope s := by
  cases hpc : s.pc with
  | checkStatus => exact hope_checkStatus hpc hne h
  | lostTest => exact hope_lostTest hpc (fun hstatus => hlost (.inr (.inr ⟨hpc, hstatus⟩))) hne h
  | stateTest => exact hope_stateTest hpc hne h
  | interruptTest => exact hope_interruptTest hpc hne h
  | service => exact hope_service hpc hne h
  | flagTest => exact hope_flagTest hpc hne h
  | expirationTest => exact hope_expirationTest hpc hne h
  | _ =>
      rw [hpc] at hturning
      exact hturning.elim

/-! ### `ST_INIT` -/

theorem hope_initIdle (hpc : s.pc = .initIdle) : Hope s := by
  by_cases hidle : s.curState = .idle
  · exact hope_of_idle hidle
  · have hnext : Hope { s with pc := .interruptTest, newState := .idle } :=
      hope_interruptTest rfl (fun hcur => hidle hcur.symm) entryHope_idle
    refine hnext.of_main ?_
    rw [mainStep, hpc]

theorem hope_getReaderVersion (hpc : s.pc = .getReaderVersion) : Hope s := by
  refine Hope.of_result (hope_initIdle (s := { s with pc := .initIdle }) rfl) ?_
  rw [resultStep, hpc]
  rfl

theorem hope_getKioskVersion (hpc : s.pc = .getKioskVersion) : Hope s := by
  refine Hope.of_result (hope_getReaderVersion (s := { s with pc := .getReaderVersion }) rfl) ?_
  rw [resultStep, hpc]
  rfl

theorem hope_getKioskId (hpc : s.pc = .getKioskId) : Hope s := by
  refine Hope.of_result (hope_getKioskVersion (s := { s with pc := .getKioskVersion }) rfl) ?_
  rw [resultStep, hpc]
  rfl

theorem entryHope_init : EntryHope .init := by
  intro s hpc hnew
  refine Hope.of_main (hope_getKioskId
    (s := { s with pc := entry s.newState, curState := s.newState }) ?_) ?_
  · change entry s.newState = _
    rw [hnew]
    rfl
  · rw [mainStep, hpc]

/-! ### `ST_MESSAGE` -/

structure Expired (s : Demo) : Prop where
  curState : s.curState = .message
  newState : s.newState = .message
  pos : 0 < s.timeStateExpiration
  lt : s.timeStateExpiration < getTimeSec s.clock

theorem Expired.expirationTest (h : s.Expired) (hpc : s.pc = .expirationTest) : Hope s := by
  refine Hope.of_main (hope_setIdle (s := { s with pc := .setIdle }) rfl) ?_
  rw [mainStep, hpc]
  exact congrArg some (by rw [if_pos ⟨h.pos, h.lt, h.curState⟩])

theorem Expired.flagTest (h : s.Expired) (hpc : s.pc = .flagTest) : Hope s := by
  have hnext : Expired { s with pc := .expirationTest } := ⟨h.curState, h.newState, h.pos, h.lt⟩
  refine (hnext.expirationTest rfl).of_main ?_
  have hflag : ¬(s.paymentStatus = true ∧ s.curState = .idle) := by
    rw [h.curState]
    exact fun hidle => nomatch hidle.2
  rw [mainStep, hpc]
  exact congrArg some (by rw [if_neg hflag])

theorem Expired.service (h : s.Expired) (hpc : s.pc = .service) : Hope s := by
  have hnext : Expired { s with pc := .flagTest } := ⟨h.curState, h.newState, h.pos, h.lt⟩
  refine (hnext.flagTest rfl).of_main ?_
  rw [mainStep, hpc]

theorem Expired.interruptTest (h : s.Expired) (hpc : s.pc = .interruptTest) : Hope s := by
  by_cases hinterrupted : s.interrupted = true
  · have hnext : Expired { s with pc := .flagTest } := ⟨h.curState, h.newState, h.pos, h.lt⟩
    refine (hnext.flagTest rfl).of_main ?_
    rw [mainStep, hpc]
    exact congrArg some (by rw [if_pos hinterrupted])
  · have hnext : Expired { s with pc := .service } := ⟨h.curState, h.newState, h.pos, h.lt⟩
    refine (hnext.service rfl).of_main ?_
    rw [mainStep, hpc]
    exact congrArg some (by rw [if_neg hinterrupted])

theorem Expired.stateTest (h : s.Expired) (hpc : s.pc = .stateTest) : Hope s := by
  have hnext : Expired { s with pc := .interruptTest } := ⟨h.curState, h.newState, h.pos, h.lt⟩
  refine (hnext.interruptTest rfl).of_main ?_
  have hsame : ¬s.newState ≠ s.curState := not_not.mpr (h.newState.trans h.curState.symm)
  rw [mainStep, hpc]
  exact congrArg some (by rw [if_neg hsame])

theorem Expired.lostTest (h : s.Expired) (hpc : s.pc = .lostTest)
    (hstatus : s.lastStatus ≠ .noKiosk) : Hope s := by
  have hnext : Expired { s with pc := .stateTest } := ⟨h.curState, h.newState, h.pos, h.lt⟩
  refine (hnext.stateTest rfl).of_main ?_
  rw [mainStep, hpc]
  exact congrArg some (by rw [if_neg hstatus])

theorem Expired.checkStatus (h : s.Expired) (hpc : s.pc = .checkStatus) : Hope s := by
  have hnext : Expired { s with pc := .lostTest, lastStatus := .ready } :=
    ⟨h.curState, h.newState, h.pos, h.lt⟩
  refine (hnext.lostTest rfl nofun).of_step (a := .status .ok .ready) ⟨rfl, nofun⟩ ?_
  rw [step, hpc]
  rfl

theorem Expired.hope (h : s.Expired) (hturning : s.pc.turning) (hlost : ¬s.Lost) : Hope s := by
  cases hpc : s.pc with
  | checkStatus => exact h.checkStatus hpc
  | lostTest => exact h.lostTest hpc fun hstatus => hlost (.inr (.inr ⟨hpc, hstatus⟩))
  | stateTest => exact h.stateTest hpc
  | interruptTest => exact h.interruptTest hpc
  | service => exact h.service hpc
  | flagTest => exact h.flagTest hpc
  | expirationTest => exact h.expirationTest hpc
  | _ =>
      rw [hpc] at hturning
      exact hturning.elim

/-- Any time is shown again. -/
theorem exists_getTimeSec (clock : ℕ) (time : BitVec 32) :
    ∃ n, getTimeSec (clock + n) = time := by
  refine ⟨2 ^ 32 * (clock + 1) + time.toNat - clock, ?_⟩
  have hsum : clock + (2 ^ 32 * (clock + 1) + time.toNat - clock) =
      2 ^ 32 * (clock + 1) + time.toNat := by omega
  rw [getTimeSec, hsum]
  apply BitVec.eq_of_toNat_eq
  rw [BitVec.toNat_ofNat, Nat.mul_add_mod, Nat.mod_eq_of_lt time.isLt]

theorem hope_message (hturning : s.pc.turning) (hlost : ¬s.Lost) (hcur : s.curState = .message)
    (hnew : s.newState = .message) (hendless : ¬Endless s.timeStateExpiration) : Hope s := by
  rw [Endless, not_or] at hendless
  obtain ⟨n, hn⟩ := exists_getTimeSec s.clock (BitVec.allOnes 32)
  refine hope_of_tick n (Expired.hope ⟨hcur, hnew, ?_, ?_⟩ hturning hlost)
  · have hne := hendless.1
    change 0 < s.timeStateExpiration
    bv_omega
  · change s.timeStateExpiration < getTimeSec (s.clock + n)
    rw [hn]
    exact BitVec.lt_allOnes_iff.mpr hendless.2

theorem hope_messageExpiration (hpc : s.pc = .messageExpiration) (hcur : s.curState = .message)
    (h : s.newState ≠ .message → EntryHope s.newState) : Hope s := by
  -- a time that does not make the message endless
  obtain ⟨n, hn⟩ := exists_getTimeSec s.clock 0
  have hnext : Hope { s with
      pc := .interruptTest
      clock := s.clock + n
      timeStateExpiration := getTimeSec (s.clock + n) + 5 } := by
    by_cases hnew : s.newState = .message
    · refine hope_message trivial nofun hcur hnew ?_
      change ¬Endless (getTimeSec (s.clock + n) + 5)
      rw [hn]
      decide
    · exact hope_interruptTest rfl (fun hsame => hnew (hsame.trans hcur)) (h hnew)
  refine hope_of_tick n (hnext.of_main ?_)
  simp only [mainStep, hpc]

theorem entryHope_message : EntryHope .message := by
  intro s hpc hnew
  refine Hope.of_main (hope_messageExpiration
    (s := { s with pc := entry s.newState, curState := s.newState }) ?_ hnew ?_) ?_
  · change entry s.newState = _
    rw [hnew]
    rfl
  · exact fun hne => (hne hnew).elim
  · rw [mainStep, hpc]

/-! ### `ST_TRANS_COMPLETE` -/

theorem hope_completeDone (hpc : s.pc = .completeDone) (hcur : s.curState = .transComplete) :
    Hope s := by
  have hnext : Hope { s with pc := .interruptTest, newState := .message } := by
    refine hope_interruptTest rfl ?_ entryHope_message
    change _ ≠ s.curState
    rw [hcur]
    nofun
  refine hnext.of_main ?_
  rw [mainStep, hpc]

theorem hope_settle (hpc : s.pc = .settle) (hcur : s.curState = .transComplete) : Hope s := by
  refine Hope.of_main ?_ (by rw [mainStep, hpc])
  exact hope_completeDone rfl hcur

theorem hope_showApproved (hpc : s.pc = .showApproved) (hcur : s.curState = .transComplete) :
    Hope s := by
  refine Hope.of_main ?_ (by rw [mainStep, hpc])
  exact hope_settle rfl hcur

theorem hope_showStatus (hpc : s.pc = .showStatus) (hcur : s.curState = .transComplete) :
    Hope s := by
  refine Hope.of_main ?_ (by rw [mainStep, hpc])
  exact hope_completeDone rfl hcur

theorem hope_completeTest (hpc : s.pc = .completeTest) (hcur : s.curState = .transComplete) :
    Hope s := by
  by_cases happroved : s.lastPaymentResponse.status.approved
  · refine Hope.of_main (hope_showApproved (s := { s with pc := .showApproved }) rfl hcur) ?_
    rw [mainStep, hpc]
    exact congrArg some (by rw [if_pos happroved])
  · refine Hope.of_main (hope_showStatus (s := { s with pc := .showStatus }) rfl hcur) ?_
    rw [mainStep, hpc]
    exact congrArg some (by rw [if_neg happroved])

theorem hope_completeJson (hpc : s.pc = .completeJson) (hcur : s.curState = .transComplete) :
    Hope s := by
  refine Hope.of_main ?_ (by rw [mainStep, hpc])
  exact hope_completeTest rfl hcur

theorem hope_completeClear (hpc : s.pc = .completeClear) (hcur : s.curState = .transComplete) :
    Hope s := by
  refine Hope.of_main ?_ (by rw [mainStep, hpc])
  exact hope_completeJson rfl hcur

theorem entryHope_transComplete : EntryHope .transComplete := by
  intro s hpc hnew
  refine Hope.of_main (hope_completeClear
    (s := { s with pc := entry s.newState, curState := s.newState }) ?_ hnew) ?_
  · change entry s.newState = _
    rw [hnew]
    rfl
  · rw [mainStep, hpc]

/-! ### `ST_TRANS` -/

/-- A callback that has passed its test gets `main` out of any state but one. -/
theorem hope_of_write (hturning : s.pc.turning) (hlost : ¬s.Lost) (hcallback : s.callback = .write)
    (hcur : s.curState ≠ .transComplete) : Hope s := by
  have hnext : Hope { s with callback := .idle, newState := .transComplete } :=
    hope_of_change hturning hlost (fun hsame => hcur hsame.symm) entryHope_transComplete
  refine hnext.of_callback ?_
  rw [step, hcallback]

theorem hope_of_test (hturning : s.pc.turning) (hlost : ¬s.Lost) (hcallback : s.callback = .test)
    (hcur : s.curState = .trans) : Hope s := by
  have hnext : Hope { s with callback := .write } := by
    refine hope_of_write hturning hlost rfl ?_
    change s.curState ≠ _
    rw [hcur]
    intro hsame
    cases hsame
  refine hnext.of_callback ?_
  rw [step, hcallback]
  exact congrArg some (by rw [if_pos hcur])

/-- A transaction that runs is completed. -/
theorem hope_of_running (hturning : s.pc.turning) (hlost : ¬s.Lost) (hcur : s.curState = .trans)
    (hrunning : 0 < s.running ∨ s.callback ≠ .idle) : Hope s := by
  cases hcallback : s.callback with
  | write =>
      refine hope_of_write hturning hlost hcallback ?_
      rw [hcur]
      nofun
  | test => exact hope_of_test hturning hlost hcallback hcur
  | idle =>
      have hpos : 0 < s.running := hrunning.resolve_right fun hne => hne hcallback
      have hnext : Hope { s with
          lastPaymentResponse := .zero
          callback := .test
          running := s.running - 1
          history := .completed .zero :: s.history } := hope_of_test hturning hlost rfl hcur
      refine hnext.of_step (a := .completion .zero) hpos ?_
      rw [step, if_pos hcallback]

/-- A transaction that was asked for is started. -/
theorem hope_of_not_forsaken (hturning : s.pc.turning) (hlost : ¬s.Lost) (hcur : s.curState = .trans)
    (hnone : ¬s.Forsaken) : Hope s := by
  by_cases hrequested : 0 < s.requested
  · have hnext : Hope { s with requested := s.requested - 1, running := s.running + 1 } :=
      hope_of_running hturning hlost hcur (.inl (Nat.succ_pos _))
    refine hnext.of_step (a := .kioskStarts) trivial ?_
    rw [step, if_pos hrequested]
  · refine hope_of_running hturning hlost hcur ?_
    by_contra hidle
    rw [not_or, not_not] at hidle
    exact hnone ⟨Nat.eq_zero_of_not_pos hrequested, Nat.eq_zero_of_not_pos hidle.1, hidle.2⟩

theorem hope_preAuthorizeReturn (hpc : s.pc = .preAuthorizeReturn) (hcur : s.curState = .trans)
    (hnone : s.newState = .trans → ¬s.Forsaken) (h : s.newState ≠ .trans → EntryHope s.newState) :
    Hope s := by
  refine Hope.of_result ?_ (by rw [resultStep, hpc]; rfl)
  by_cases hnew : s.newState = .trans
  · refine hope_of_not_forsaken trivial ?_ hcur fun hnone' => hnone hnew ?_
    · rintro (hlost | hlost | ⟨hlost, -⟩) <;> cases hlost
    · exact ⟨hnone'.requested, hnone'.running, hnone'.callback⟩
  · exact hope_interruptTest rfl (fun hsame => hnew (hsame.trans hcur)) (h hnew)

theorem hope_preAuthorize (hpc : s.pc = .preAuthorize) (hcur : s.curState = .trans)
    (h : s.newState ≠ .trans → EntryHope s.newState) : Hope s := by
  refine Hope.of_main ?_ (by rw [mainStep, hpc])
  exact hope_preAuthorizeReturn rfl hcur (fun _ hnone => Nat.succ_ne_zero _ hnone.requested) h

theorem entryHope_trans : EntryHope .trans := by
  intro s hpc hnew
  refine Hope.of_main (hope_preAuthorize
    (s := { s with pc := entry s.newState, curState := s.newState }) ?_ hnew ?_) ?_
  · change entry s.newState = _
    rw [hnew]
    rfl
  · exact fun hne => (hne hnew).elim
  · rw [mainStep, hpc]

theorem hope_startFailed (hpc : s.pc = .startFailed) (hcur : s.curState = .trans) : Hope s := by
  refine Hope.of_main ?_ (by rw [mainStep, hpc])
  refine hope_interruptTest rfl ?_ entryHope_message
  change _ ≠ s.curState
  rw [hcur]
  intro hsame
  cases hsame

theorem hope_showFailed (hpc : s.pc = .showFailed) (hcur : s.curState = .trans) : Hope s := by
  refine Hope.of_main ?_ (by rw [mainStep, hpc])
  exact hope_startFailed rfl hcur

theorem entryHope {state : DemoState} (h : state ≠ .invalid) : EntryHope state := by
  cases state with
  | init => exact entryHope_init
  | idle => exact entryHope_idle
  | trans => exact entryHope_trans
  | transComplete => exact entryHope_transComplete
  | message => exact entryHope_message
  | invalid => exact (h rfl).elim

/-! ### A lost kiosk -/

theorem hope_lostInit (hpc : s.pc = .lostInit) (hstatus : s.lastStatus ≠ .noKiosk)
    (h : s.curState = .init → s.callback = .write) : Hope s := by
  refine Hope.of_main ?_ (by rw [mainStep, hpc])
  have hlost : ¬Lost { s with pc := .lostTest, newState := .init } := by
    rintro (hfalse | hfalse | ⟨-, hstatus'⟩)
    · cases hfalse
    · cases hfalse
    · exact hstatus hstatus'
  by_cases hcur : s.curState = .init
  · refine hope_of_write trivial hlost (h hcur) ?_
    change s.curState ≠ _
    rw [hcur]
    intro hsame
    cases hsame
  · exact hope_of_change trivial hlost (fun hsame => hcur hsame.symm) entryHope_init

theorem hope_lostCheck (hpc : s.pc = .lostCheck) (h : s.curState = .init → s.callback = .write) :
    Hope s := by
  have hnext : Hope { s with pc := .lostInit, lastStatus := .ready } :=
    hope_lostInit rfl nofun h
  refine hnext.of_step (a := .status .ok .ready) ⟨rfl, nofun⟩ ?_
  rw [step, hpc]
  rfl

theorem hope_of_lost (hlost : s.Lost) (h : s.curState = .init → s.callback = .write) : Hope s := by
  have htest : ∀ s : Demo, s.pc = .lostTest → s.lastStatus = .noKiosk →
      (s.curState = .init → s.callback = .write) → Hope s := by
    intro s hpc hstatus h
    refine Hope.of_main (hope_lostCheck (s := { s with pc := .lostCheck }) rfl h) ?_
    rw [mainStep, hpc]
    exact congrArg some (by rw [if_pos hstatus])
  rcases hlost with hpc | hpc | ⟨hpc, hstatus⟩
  · exact hope_lostCheck hpc h
  · by_cases hstatus : s.lastStatus = .noKiosk
    · refine Hope.of_main ?_ (by rw [mainStep, hpc])
      exact htest _ rfl hstatus h
    · exact hope_lostInit hpc hstatus h
  · exact htest s hpc hstatus h

/-! ### All states that are reached -/

theorem valid_step {s' : Demo} {a : Action} (h : s.newState ≠ .invalid) (hs : Transition s a s') :
    s'.newState ≠ .invalid := by
  cases hs with
  | sets hpc hsets => cases hsets <;> nofun
  | callbackWrite hcallback => nofun
  | _ => exact h

/-- In the loop, `main` gets out of every state in which it is not stuck. -/
theorem hope_of_turning (hvalid : s.newState ≠ .invalid) (hturning : s.pc.turning) (hlost : ¬s.Lost)
    (hhung : ¬Hung s) : Hope s := by
  by_cases hsame : s.newState = s.curState
  · have hstuck : ¬s.Stuck := fun hstuck => hhung (.stuck hturning hlost hsame hstuck)
    rw [Stuck, not_or, not_or, not_or] at hstuck
    obtain ⟨hinit, hmessage, hcomplete, htrans⟩ := hstuck
    by_cases hcallback : s.callback = .write
    · exact hope_of_write hturning hlost hcallback hcomplete
    · cases hcur : s.curState with
      | init => exact (hinit ⟨hcur, hcallback⟩).elim
      | idle => exact hope_of_idle hcur
      | trans => exact hope_of_not_forsaken hturning hlost hcur fun hnone => htrans ⟨hcur, hnone⟩
      | transComplete => exact (hcomplete hcur).elim
      | message =>
          refine hope_message hturning hlost hcur (hsame.trans hcur) fun hendless => ?_
          exact hmessage ⟨hcur, hcallback, hendless⟩
      | invalid => exact (hvalid (hsame.trans hcur)).elim
  · exact hope_of_change hturning hlost hsame (entryHope hvalid)

theorem hope_of_not_hung (hvalid : s.newState ≠ .invalid) (hlocated : Located s)
    (hhung : ¬Hung s) : Hope s := by
  have hentry : EntryHope s.newState := entryHope hvalid
  by_cases hlost : s.Lost
  · refine hope_of_lost hlost fun hcur => ?_
    by_contra hcallback
    exact hhung (.lost hlost hcur hcallback)
  · by_cases hturning : s.pc.turning
    · exact hope_of_turning hvalid hturning hlost hhung
    · cases hpc : s.pc with
      | assign => exact hentry s hpc rfl
      | getKioskId => exact hope_getKioskId hpc
      | getKioskVersion => exact hope_getKioskVersion hpc
      | getReaderVersion => exact hope_getReaderVersion hpc
      | initIdle => exact hope_initIdle hpc
      | showWelcome => exact hope_of_idle (hlocated.at_pc hpc rfl)
      | idleExpiration => exact hope_of_idle (hlocated.at_pc hpc rfl)
      | preAuthorize => exact hope_preAuthorize hpc (hlocated.at_pc hpc rfl) fun _ => hentry
      | preAuthorizeReturn =>
          have hcur := hlocated.at_pc hpc rfl
          refine hope_preAuthorizeReturn hpc hcur (fun hnew hnone => ?_) fun _ => hentry
          exact hhung (.ended hpc hcur hnew hnone)
      | showFailed => exact hope_showFailed hpc (hlocated.at_pc hpc rfl)
      | startFailed => exact hope_startFailed hpc (hlocated.at_pc hpc rfl)
      | completeClear => exact hope_completeClear hpc (hlocated.at_pc hpc rfl)
      | completeJson => exact hope_completeJson hpc (hlocated.at_pc hpc rfl)
      | completeTest => exact hope_completeTest hpc (hlocated.at_pc hpc rfl)
      | showApproved => exact hope_showApproved hpc (hlocated.at_pc hpc rfl)
      | settle => exact hope_settle hpc (hlocated.at_pc hpc rfl)
      | showStatus => exact hope_showStatus hpc (hlocated.at_pc hpc rfl)
      | completeDone => exact hope_completeDone hpc (hlocated.at_pc hpc rfl)
      | messageExpiration => exact hope_messageExpiration hpc (hlocated.at_pc hpc rfl) fun _ => hentry
      | setTrans => exact hope_of_idle (hlocated.at_pc hpc rfl)
      | setIdle => exact hope_setIdle hpc
      | lostCheck => exact (hlost (.inl hpc)).elim
      | lostInit => exact (hlost (.inr (.inl hpc))).elim
      | _ =>
          rw [hpc] at hturning
          exact (hturning trivial).elim

theorem Hung.never_idle (h : Hung s) :
    ¬∃ s', machine.Leads Friendly s s' ∧ s'.curState = .idle := by
  rintro ⟨s', hleads, hidle⟩
  exact (h.leads hleads).ne_idle hidle

/-- **Recovery.** From a state that is reached, the demo can get to `ST_IDLE` unless it hangs. -/
theorem idle_reachable_iff (h : machine.Reachable s) :
    (∃ s', machine.Leads Friendly s s' ∧ s'.curState = .idle) ↔ ¬Hung s := by
  have hboth : Located s ∧ s.newState ≠ .invalid := by
    apply h.invariant (I := fun s => Located s ∧ s.newState ≠ .invalid)
    · exact fun s hs => ⟨located_start hs, ne_of_eq_of_ne hs.newState nofun⟩
    · rintro s a s' ⟨hlocated, hvalid⟩ _ hstep
      have htransition := transition_of_step hstep
      exact ⟨located_step hlocated htransition, valid_step hvalid htransition⟩
  constructor
  · exact fun hidle hhung => hhung.never_idle hidle
  · exact hope_of_not_hung hboth.2 hboth.1

/-- The program starts. -/
theorem boot_idle_reachable : ∃ s', machine.Leads Friendly boot s' ∧ s'.curState = .idle := by
  refine (idle_reachable_iff ⟨boot, boot_start, .refl⟩).mpr ?_
  rintro (⟨-, hcur, -⟩ | ⟨-, -, hsame, -⟩ | ⟨hpc, -⟩)
  · cases hcur
  · cases hsame
  · cases hpc

def failedRun : List Action := iterations [3] ++ [.result .commError]

/-- The demo stays in `ST_INIT` for good. -/
theorem failedRun_hangs :
    ∃ s, machine.Reachable s ∧ s.curState = .init ∧ s.newState = .init ∧
      ¬∃ s', machine.Leads Friendly s s' ∧ s'.curState = .idle := by
  have hexec : (machine.exec (fun _ _ => True) boot failedRun).map
      (fun s => (s.pc, s.callback, s.curState, s.newState)) =
        some (.interruptTest, .idle, .init, .init) := by decide +kernel
  obtain ⟨s, hs, hstate⟩ := Option.map_eq_some_iff.mp hexec
  simp only [Prod.mk.injEq] at hstate
  obtain ⟨hpc, hcallback, hcur, hnew⟩ := hstate
  refine ⟨s, ⟨boot, boot_start, .of_exec hs⟩, hcur, hnew, Hung.never_idle ?_⟩
  refine .stuck ?_ ?_ (hnew.trans hcur.symm) (.inl ⟨hcur, ?_⟩)
  · rw [hpc]
    trivial
  · rw [Lost, hpc]
    rintro (hfalse | hfalse | ⟨hfalse, -⟩) <;> cases hfalse
  · rw [hcallback]
    intro hwrite
    cases hwrite

/-- The completion of a payment is dropped before `PreAuthorize` returns. -/
def unreportedRun : List Action := requestRun ++ [.kioskStarts, .completionLost]

/-- The demo stays in `ST_TRANS` for good. -/
theorem unreportedRun_hangs :
    ∃ s, machine.Reachable s ∧ s.curState = .trans ∧ s.newState = .trans ∧
      ¬∃ s', machine.Leads Friendly s s' ∧ s'.curState = .idle := by
  have hexec : (machine.exec (fun _ _ => True) boot unreportedRun).map
      (fun s => (s.pc, s.callback, s.curState, s.newState, s.requested, s.running)) =
        some (.preAuthorizeReturn, .idle, .trans, .trans, 0, 0) := by decide +kernel
  obtain ⟨s, hs, hstate⟩ := Option.map_eq_some_iff.mp hexec
  simp only [Prod.mk.injEq] at hstate
  obtain ⟨hpc, hcallback, hcur, hnew, hrequested, hrunning⟩ := hstate
  refine ⟨s, ⟨boot, boot_start, .of_exec hs⟩, hcur, hnew, Hung.never_idle ?_⟩
  exact .ended hpc hcur hnew ⟨hrequested, hrunning, hcallback⟩

end Demo

end OtiKiosk
