import OtiKiosk.Demo.Loop

/-!
How many payments a connection can cause. A connection sets the request flag, and
`main` clears it when the transaction is complete. A transaction that is left in
another way after the kiosk has accepted it leaves the flag set; the only such way is
that the kiosk is lost.
-/

namespace OtiKiosk

def DemoEvent.isAccepted : DemoEvent → Bool
  | .accepted => true
  | _ => false

def DemoEvent.isEstablished : DemoEvent → Bool
  | .established _ => true
  | _ => false

namespace Demo

/-- How often `PreAuthorize` returned `KIOSK_RET_OK`. -/
def acceptedCount (s : Demo) : ℕ := s.history.countP DemoEvent.isAccepted

/-- How many connections were established. -/
def establishedCount (s : Demo) : ℕ := s.history.countP DemoEvent.isEstablished

/-- When `main` restarts because the kiosk was lost, no request is pending that was served
already. -/
def Covered (s : Demo) (a : Action) : Prop :=
  a = .main → s.pc = .lostInit →
    s.paymentStatus = false ∨ s.acceptedCount < s.establishedCount

instance (s : Demo) (a : Action) : Decidable (Covered s a) :=
  inferInstanceAs (Decidable (_ → _ → _ ∨ _))

/-- The steps at which a request is being served, and was not accepted yet. -/
def asking : MainPc → Prop
  | .setTrans | .preAuthorize | .preAuthorizeReturn | .showFailed | .startFailed => True
  | _ => False

/-- The request flag will be cleared before it is looked at again. -/
def Busy (s : Demo) : Prop :=
  s.curState = .trans ∧ (s.newState = .trans ∧ s.pc ≠ .assign ∨ s.newState = .transComplete) ∨
    s.pc = .completeClear

structure Counted (s : Demo) : Prop where
  le : s.acceptedCount ≤ s.establishedCount
  asked : asking s.pc ∨ s.newState = .trans ∧ s.curState ≠ .trans →
    s.acceptedCount < s.establishedCount
  flag : s.paymentStatus = true → s.acceptedCount < s.establishedCount ∨ s.Busy
  /-- In `ST_TRANS`, only a completion has changed `new_state`. -/
  started : home s.pc = some .trans → s.newState = .trans ∨ s.newState = .transComplete
  /-- So it has when a state is entered again. -/
  again : s.pc = .assign → s.newState = s.curState → s.newState = .transComplete

variable {s s' : Demo} {a : Action}

/-- Outside of `ST_TRANS` nothing clears the flag but the entry of `ST_TRANS_COMPLETE`. -/
theorem Counted.free (h : Counted s) (hlocated : Located s) {pc : MainPc} (hpc : s.pc = pc)
    {state : DemoState} (hhome : home pc = some state) (hstate : state ≠ .trans)
    (hne : pc ≠ .completeClear) (hflag : s.paymentStatus = true) :
    s.acceptedCount < s.establishedCount := by
  refine (h.flag hflag).resolve_right ?_
  rintro (⟨htrans, -⟩ | hclear)
  · exact hstate ((hlocated.at_pc hpc hhome).symm.trans htrans)
  · exact hne (hpc.symm.trans hclear)

/-- Steps that leave the states, the flag and the counts alone. -/
theorem Counted.move (h : Counted s) (hcur : s'.curState = s.curState)
    (hnew : s'.newState = s.newState) (hflag : s'.paymentStatus = s.paymentStatus)
    (haccepted : s'.acceptedCount = s.acceptedCount)
    (hestablished : s'.establishedCount = s.establishedCount)
    (hclear : s.pc ≠ .completeClear)
    (hasking : asking s'.pc → s.acceptedCount < s.establishedCount)
    (hassign : s'.pc = .assign → s.newState ≠ s.curState)
    (hhome : home s'.pc = some .trans → home s.pc = some .trans) : Counted s' where
  le := by
    rw [haccepted, hestablished]
    exact h.le
  asked := by
    rw [haccepted, hestablished, hcur, hnew]
    exact fun hasked => hasked.elim hasking fun hpending => h.asked (.inr hpending)
  flag := by
    rw [haccepted, hestablished, hflag, Busy, hcur, hnew]
    intro hset
    refine (h.flag hset).imp_right ?_
    rintro (⟨htrans, hstay | hcomplete⟩ | hclear')
    · refine .inl ⟨htrans, .inl ⟨hstay.1, fun hpc => ?_⟩⟩
      exact hassign hpc (hstay.1.trans htrans.symm)
    · exact .inl ⟨htrans, .inr hcomplete⟩
    · exact (hclear hclear').elim
  started := by
    rw [hnew]
    exact fun hpc => h.started (hhome hpc)
  again := by
    rw [hcur, hnew]
    exact fun hpc hsame => (hassign hpc hsame).elim

theorem Counted.goes (h : Counted s) {pc pc' : MainPc} (hpc : s.pc = pc)
    (hgoes : Goes s pc pc') : Counted { s with pc := pc' } := by
  refine h.move rfl rfl rfl rfl rfl ?_ ?_ ?_ ?_
  · rw [hpc]
    cases hgoes <;> nofun
  · change asking pc' → _
    cases hgoes with
    | requested hflag hcur =>
        intro _
        refine (h.flag hflag).resolve_right ?_
        rintro (⟨htrans, -⟩ | hclear)
        · cases hcur.symm.trans htrans
        · cases hpc.symm.trans hclear
    | _ => exact False.elim
  · rintro rfl
    cases hgoes with
    | change hne => exact hne
  · change home pc' = _ → _
    cases hgoes <;> nofun

/-- `new_state` is set, outside of a request and of a completion. -/
theorem Counted.sets (h : Counted s) (hlocated : Located s) (hg : Covered s .main)
    {pc pc' : MainPc} {state : DemoState} (hpc : s.pc = pc) (hsets : Sets pc pc' state) :
    Counted { s with pc := pc', newState := state } := by
  have hpending : asking pc → s.acceptedCount < s.establishedCount := by
    rw [← hpc]
    exact fun hasking => h.asked (.inl hasking)
  have hflag : s.paymentStatus = true → s.acceptedCount < s.establishedCount := by
    intro hset
    cases hsets with
    | lostInit => exact (hg rfl hpc).resolve_left (by rw [hset]; nofun)
    | initIdle => exact h.free hlocated hpc rfl nofun nofun hset
    | startFailed => exact hpending trivial
    | completeDone => exact h.free hlocated hpc rfl nofun nofun hset
    | setTrans => exact hpending trivial
    | setIdle => exact h.free hlocated hpc rfl nofun nofun hset
  refine ⟨h.le, ?_, fun hset => .inl (hflag hset), ?_, ?_⟩
  · rintro (hasking | ⟨htrans, -⟩)
    · cases hsets <;> cases hasking
    · cases hsets <;> cases htrans
      exact hpending trivial
  · change home pc' = _ → _
    cases hsets <;> nofun
  · change pc' = .assign → _
    cases hsets <;> nofun

theorem Counted.assign (h : Counted s) (hpc : s.pc = .assign) :
    Counted { s with pc := entry s.newState, curState := s.newState } where
  le := h.le
  asked := by
    rintro (hasking | ⟨htrans, hne⟩)
    · refine h.asked (.inr ?_)
      have htrans : s.newState = .trans := by
        change asking (entry s.newState) at hasking
        cases hnew : s.newState with
        | trans => rfl
        | _ =>
            rw [hnew] at hasking
            cases hasking
      refine ⟨htrans, fun hcur => ?_⟩
      have hagain := h.again hpc (htrans.trans hcur.symm)
      rw [htrans] at hagain
      cases hagain
    · exact (hne htrans).elim
  flag := by
    intro hset
    refine (h.flag hset).imp_right ?_
    rintro (⟨-, hstay | hcomplete⟩ | hclear)
    · exact (hstay.2 hpc).elim
    · refine .inr ?_
      change entry s.newState = _
      rw [hcomplete]
      rfl
    · cases hpc.symm.trans hclear
  started := fun hhome => .inl (home_entry hhome)
  again := by
    intro hentry
    change entry s.newState = _ at hentry
    cases hnew : s.newState <;> rw [hnew] at hentry <;> cases hentry

/-- `PreAuthorize` returned `KIOSK_RET_OK`. -/
theorem Counted.accept (h : Counted s) (hlocated : Located s)
    (hpc : s.pc = .preAuthorizeReturn) (hpc' : s'.pc = .interruptTest)
    (hcur : s'.curState = s.curState) (hnew : s'.newState = s.newState)
    (hhistory : s'.history = .accepted :: s.history) : Counted s' := by
  have htrans : s'.curState = .trans := hcur.trans (hlocated.at_pc hpc rfl)
  have haccepted : s'.acceptedCount = s.acceptedCount + 1 := by
    rw [acceptedCount, hhistory]
    exact List.countP_cons_of_pos rfl
  have hestablished : s'.establishedCount = s.establishedCount := by
    rw [establishedCount, hhistory]
    exact List.countP_cons_of_neg nofun
  refine ⟨?_, ?_, fun _ => .inr (.inl ⟨htrans, ?_⟩), ?_, ?_⟩
  · rw [haccepted, hestablished]
    exact h.asked (.inl (by rw [hpc]; trivial))
  · rw [hpc']
    exact fun hasked => hasked.elim False.elim fun hpending => (hpending.2 htrans).elim
  · rw [hnew, hpc']
    exact (h.started (by rw [hpc]; rfl)).imp_left fun hstay => ⟨hstay, nofun⟩
  · rw [hpc']
    nofun
  · rw [hpc']
    nofun

/-- A connection is established. -/
theorem Counted.establish (h : Counted s) (hpc : s'.pc = s.pc) (hcur : s'.curState = s.curState)
    (hnew : s'.newState = s.newState) {client : ℕ}
    (hhistory : s'.history = .established client :: s.history) : Counted s' := by
  have haccepted : s'.acceptedCount = s.acceptedCount := by
    rw [acceptedCount, hhistory]
    exact List.countP_cons_of_neg nofun
  have hestablished : s'.establishedCount = s.establishedCount + 1 := by
    rw [establishedCount, hhistory]
    exact List.countP_cons_of_pos rfl
  have hlt : s'.acceptedCount < s'.establishedCount := by
    rw [haccepted, hestablished]
    exact Nat.lt_succ_of_le h.le
  refine ⟨hlt.le, fun _ => hlt, fun _ => .inl hlt, ?_, ?_⟩
  · rw [hpc, hnew]
    exact h.started
  · rw [hpc, hnew, hcur]
    exact h.again

theorem counted_step (h : Counted s) (hlocated : Located s) (hg : Covered s a)
    (hs : Transition s a s') : Counted s' := by
  -- while `main` asks for a payment, there is a connection that has none yet
  have hasked : asking s.pc → s.acceptedCount < s.establishedCount := fun hasking =>
    h.asked (.inl hasking)
  cases hs with
  | goes hpc hgoes => exact h.goes hpc hgoes
  | sets hpc hsets => exact h.sets hlocated hg hpc hsets
  | shows line1 line2 hpc hshows =>
      rw [hpc] at hasked
      refine h.move rfl rfl rfl rfl rfl ?_ ?_ ?_ ?_
      · rw [hpc]
        cases hshows <;> nofun
      · cases hshows with
        | failed => exact fun _ => hasked trivial
        | _ => exact False.elim
      · cases hshows <;> nofun
      · rw [hpc]
        cases hshows with
        | failed => exact fun _ => rfl
        | _ => exact id
  | returns hpc hreturns =>
      rw [hpc] at hasked
      refine h.move rfl rfl rfl rfl rfl ?_ ?_ ?_ ?_
      · rw [hpc]
        cases hreturns with
        | initFailed _ hinit => rcases hinit with rfl | rfl | rfl <;> nofun
        | _ => nofun
      · cases hreturns with
        | notStarted _ => exact fun _ => hasked trivial
        | _ => exact False.elim
      · cases hreturns <;> nofun
      · rw [hpc]
        cases hreturns with
        | notStarted _ => exact fun _ => rfl
        | initFailed _ _ => exact nofun
        | _ => exact id
  | status ret status hpc =>
      refine h.move rfl rfl rfl rfl rfl ?_ False.elim nofun nofun
      rw [hpc]
      nofun
  | statusAgain ret status hpc =>
      refine h.move rfl rfl rfl rfl rfl ?_ False.elim nofun nofun
      rw [hpc]
      nofun
  | assign hpc => exact h.assign hpc
  | expiration hpc =>
      refine h.move rfl rfl rfl rfl rfl ?_ False.elim nofun nofun
      rcases hpc with hpc | hpc <;> rw [hpc] <;> nofun
  | preAuthorize hpc =>
      rw [hpc] at hasked
      refine h.move rfl rfl rfl rfl rfl ?_ (fun _ => hasked trivial) nofun fun _ => ?_
      · rw [hpc]
        nofun
      · rw [hpc]
        rfl
  | accepted hpc => exact h.accept hlocated hpc rfl rfl rfl rfl
  | completeClear hpc =>
      refine ⟨h.le, ?_, nofun, nofun, nofun⟩
      rintro (hfalse | hpending)
      · cases hfalse
      · exact h.asked (.inr hpending)
  | completeJson hpc =>
      refine h.move rfl rfl rfl rfl rfl ?_ False.elim nofun nofun
      rw [hpc]
      nofun
  | settle hpc =>
      have haccepted : acceptedCount { s.send (if s.confirm then
          .confirmTransaction 450 0 42 s.lastPaymentResponse.reference
          else .voidTransaction s.lastPaymentResponse.reference) .completeDone with
          confirm := !s.confirm } = s.acceptedCount := rfl
      refine h.move rfl rfl rfl haccepted rfl ?_ False.elim nofun nofun
      rw [hpc]
      nofun
  | callbackWrite _ =>
      refine ⟨h.le, ?_, fun hset => (h.flag hset).imp_right ?_, fun _ => .inr rfl, fun _ _ => rfl⟩
      · rintro (hasking | ⟨htrans, -⟩)
        · exact hasked hasking
        · cases htrans
      · rintro (⟨htrans, -⟩ | hclear)
        · exact .inl ⟨htrans, .inr rfl⟩
        · exact .inr hclear
  | established client hpc _ => exact h.establish rfl rfl rfl rfl
  | closed client hpc _ => exact ⟨h.le, h.asked, nofun, h.started, h.again⟩
  | _ => exact ⟨h.le, h.asked, h.flag, h.started, h.again⟩

theorem counted_start (h : Start s) : Counted s := by
  refine ⟨?_, ?_, ?_, ?_, ?_⟩
  · rw [acceptedCount, establishedCount, h.history]
    exact le_rfl
  · rw [h.pc, h.newState]
    rintro (hfalse | ⟨hfalse, -⟩) <;> cases hfalse
  · rw [h.paymentStatus]
    nofun
  · rw [h.pc]
    nofun
  · rw [h.pc]
    nofun

/-- **Payments.** -/
theorem acceptedCount_le (h : machine.Reach Covered s) : s.acceptedCount ≤ s.establishedCount := by
  have hboth : Located s ∧ Counted s := by
    apply h.invariant (I := fun s => Located s ∧ Counted s)
    · exact fun s hs => ⟨located_start hs, counted_start hs⟩
    · rintro s a s' ⟨hlocated, hcounted⟩ hg hstep
      have htransition := transition_of_step hstep
      exact ⟨located_step hlocated htransition, counted_step hcounted hlocated hg htransition⟩
  exact hboth.2.le

def acceptedRun : List Action := requestRun ++ [.kioskStarts, .result .ok]

theorem acceptedRun_count :
    ∃ s, machine.exec Covered boot acceptedRun = some s ∧ s.acceptedCount = 1 ∧
      s.acceptedCount ≤ s.establishedCount := by
  have hexec : (machine.exec Covered boot acceptedRun).map acceptedCount = some 1 := by
    decide +kernel
  obtain ⟨s, hs, hcount⟩ := Option.map_eq_some_iff.mp hexec
  exact ⟨s, hs, hcount, acceptedCount_le ⟨boot, boot_start, .of_exec hs⟩⟩

def lostRun : List Action :=
  acceptedRun ++ List.replicate 4 .main ++ [.status .commError .notReady, .main, .status .ok .ready] ++
    List.replicate 4 .main ++ initialise ++ List.replicate 3 .main ++ iterations [10, 4] ++
    [.kioskStarts, .result .ok]

/-- One connection, and two payments. -/
theorem lostRun_count :
    ∃ s, machine.Reachable s ∧ s.acceptedCount = 2 ∧ s.establishedCount = 1 := by
  have hexec : (machine.exec (fun _ _ => True) boot lostRun).map
      (fun s => (s.acceptedCount, s.establishedCount)) = some (2, 1) := by decide +kernel
  obtain ⟨s, hs, hcounts⟩ := Option.map_eq_some_iff.mp hexec
  obtain ⟨haccepted, hestablished⟩ := Prod.mk.inj hcounts
  exact ⟨s, ⟨boot, boot_start, .of_exec hs⟩, haccepted, hestablished⟩

end Demo

end OtiKiosk
