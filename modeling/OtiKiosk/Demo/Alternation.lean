import OtiKiosk.Demo.Clients

/-!
What the demo does with approved payments, over whole runs: it confirms the first one,
voids the second, and so on in turn, whatever happens in between. Each of these
commands has the reference of the completion that was reported last.
-/

namespace OtiKiosk

/-- Confirmations and voids. -/
def DemoEvent.isSettlement : DemoEvent → Bool
  | .sent (.confirmTransaction _ _ _ _) => true
  | .sent (.voidTransaction _) => true
  | _ => false

namespace Demo

/-- How many confirmations and voids were sent. -/
def settlements (history : List DemoEvent) : ℕ := history.countP DemoEvent.isSettlement

def lastCompletion : List DemoEvent → Option PaymentResponse
  | [] => none
  | .completed resp :: _ => some resp
  | _ :: history => lastCompletion history

/-- The command that settles when `n` were sent before it. -/
def settlement (n : ℕ) (reference : CString) : BooleanCommand :=
  if n % 2 = 0 then .confirmTransaction 450 0 42 reference else .voidTransaction reference

def Reported (s : Demo) : Prop :=
  s.callback ≠ .idle ∨ s.newState = .transComplete ∨ home s.pc = some .transComplete

structure Remembers (s : Demo) : Prop where
  confirm : s.confirm = decide (settlements s.history % 2 = 0)
  response : ∀ resp, lastCompletion s.history = some resp → s.lastPaymentResponse = resp
  reported : s.Reported → (lastCompletion s.history).isSome = true

variable {s s' : Demo} {a : Action}

theorem remembers_start (h : Start s) : Remembers s where
  confirm := by
    rw [h.confirm, h.history]
    rfl
  response := by
    rw [h.history]
    exact fun resp hresp => by cases hresp
  reported := by
    rw [Reported, h.callback, h.newState, h.pc]
    rintro (hidle | hnew | hhome)
    · exact (hidle rfl).elim
    · cases hnew
    · cases hhome

/-- Events other than settlements and completions change nothing. -/
theorem Remembers.move (h : Remembers s) (hconfirm : s'.confirm = s.confirm)
    (hresponse : s'.lastPaymentResponse = s.lastPaymentResponse)
    (hcount : settlements s'.history = settlements s.history)
    (hlast : lastCompletion s'.history = lastCompletion s.history)
    (hreported : s'.Reported → s.Reported) : Remembers s' where
  confirm := by rw [hconfirm, hcount, h.confirm]
  response := by
    rw [hlast, hresponse]
    exact h.response
  reported := by
    rw [hlast]
    exact fun hs => h.reported (hreported hs)

/-- Only `main` is elsewhere. -/
theorem Reported.of_pc (hcallback : s'.callback = s.callback) (hnew : s'.newState = s.newState)
    (hhome : home s'.pc = some .transComplete → s.Reported) (h : s'.Reported) : s.Reported := by
  rw [Reported, hcallback, hnew] at h
  rcases h with h | h | h
  · exact .inl h
  · exact .inr (.inl h)
  · exact hhome h

/-- What is sent next. -/
theorem Remembers.settlement_eq (h : Remembers s) :
    (if s.confirm then .confirmTransaction 450 0 42 s.lastPaymentResponse.reference
      else .voidTransaction s.lastPaymentResponse.reference) =
      settlement (settlements s.history) s.lastPaymentResponse.reference := by
  rw [h.confirm, settlement]
  simp only [decide_eq_true_eq]

theorem isSettlement_settlement (n : ℕ) (reference : CString) :
    (DemoEvent.sent (settlement n reference)).isSettlement = true := by
  rw [settlement]
  split_ifs <;> rfl

/-- A settlement turns the flag over. -/
theorem Remembers.settle (h : Remembers s) (hpc : s.pc = .settle) :
    Remembers { s.send (if s.confirm then .confirmTransaction 450 0 42 s.lastPaymentResponse.reference
      else .voidTransaction s.lastPaymentResponse.reference) .completeDone with
      confirm := !s.confirm } := by
  rw [h.settlement_eq]
  refine ⟨?_, h.response, fun _ => h.reported (.inr (.inr ?_))⟩
  · show (!s.confirm) = decide (settlements (.sent _ :: s.history) % 2 = 0)
    have hcount : settlements (.sent (settlement (settlements s.history)
        s.lastPaymentResponse.reference) :: s.history) = settlements s.history + 1 :=
      List.countP_cons_of_pos (isSettlement_settlement _ _)
    rw [hcount, h.confirm, ← decide_not]
    exact decide_eq_decide.mpr (by omega)
  · rw [hpc]
    rfl

theorem remembers_step (h : Remembers s) (hs : Transition s a s') : Remembers s' := by
  have hhome : ∀ {pc}, s.pc = pc → home pc = some .transComplete → s.Reported := by
    rintro pc rfl hpc
    exact .inr (.inr hpc)
  cases hs with
  | goes hpc hgoes =>
      refine h.move rfl rfl rfl rfl (Reported.of_pc rfl rfl fun hto => hhome hpc ?_)
      change home _ = _ at hto
      cases hgoes with
      | approved _ => rfl
      | notApproved _ => rfl
      | _ => cases hto
  | sets hpc hsets =>
      refine h.move rfl rfl rfl rfl ?_
      rintro (hcallback | hnew | hto)
      · exact .inl hcallback
      · cases hsets <;> cases hnew
      · change home _ = _ at hto
        cases hsets <;> cases hto
  | shows line1 line2 hpc hshows =>
      refine h.move rfl rfl rfl rfl (Reported.of_pc rfl rfl fun hto => hhome hpc ?_)
      change home _ = _ at hto
      cases hshows with
      | approved => rfl
      | status => rfl
      | _ => cases hto
  | returns hpc hreturns =>
      refine h.move rfl rfl rfl rfl (Reported.of_pc rfl rfl fun hto => ?_)
      change home _ = _ at hto
      cases hreturns <;> cases hto
  | status ret status hpc =>
      exact h.move rfl rfl rfl rfl (Reported.of_pc rfl rfl fun hto => by cases hto)
  | statusAgain ret status hpc =>
      exact h.move rfl rfl rfl rfl (Reported.of_pc rfl rfl fun hto => by cases hto)
  | assign hpc =>
      exact h.move rfl rfl rfl rfl (Reported.of_pc rfl rfl fun hto =>
        .inr (.inl (home_entry hto)))
  | expiration hpc =>
      exact h.move rfl rfl rfl rfl (Reported.of_pc rfl rfl fun hto => by cases hto)
  | preAuthorize hpc =>
      exact h.move rfl rfl rfl rfl (Reported.of_pc rfl rfl fun hto => by cases hto)
  | accepted hpc =>
      exact h.move rfl rfl rfl rfl (Reported.of_pc rfl rfl fun hto => by cases hto)
  | completeClear hpc =>
      exact h.move rfl rfl rfl rfl (Reported.of_pc rfl rfl fun _ => hhome hpc rfl)
  | completeJson hpc =>
      exact h.move rfl rfl rfl rfl (Reported.of_pc rfl rfl fun _ => hhome hpc rfl)
  | settle hpc => exact h.settle hpc
  | completion resp hcallback =>
      exact ⟨h.confirm, fun r hr => Option.some.inj hr, fun _ => rfl⟩
  | callbackTrue hcallback hcur =>
      refine h.move rfl rfl rfl rfl fun _ => .inl ?_
      rw [hcallback]
      exact fun h => by cases h
  | callbackFalse hcallback hcur =>
      refine h.move rfl rfl rfl rfl fun _ => .inl ?_
      rw [hcallback]
      exact fun h => by cases h
  | callbackWrite hcallback =>
      refine h.move rfl rfl rfl rfl fun _ => .inl ?_
      rw [hcallback]
      exact fun h => by cases h
  | _ => exact h.move rfl rfl rfl rfl id

/-- Settlements are sent by one step. -/
theorem pc_of_settlement {cmd : BooleanCommand} (hs : Transition s a s')
    (hcmd : (DemoEvent.sent cmd).isSettlement = true) (h : s'.history = .sent cmd :: s.history) :
    s.pc = .settle ∧
      cmd = if s.confirm then .confirmTransaction 450 0 42 s.lastPaymentResponse.reference
        else .voidTransaction s.lastPaymentResponse.reference := by
  cases hs with
  | settle hpc => exact ⟨hpc, by cases (List.cons.inj h).1; rfl⟩
  | shows line1 line2 hpc hshows =>
      cases (List.cons.inj h).1
      cases hcmd
  | preAuthorize hpc =>
      cases (List.cons.inj h).1
      cases hcmd
  | accepted | completion | established | closed => cases h
  | _ => exact (List.cons_ne_self _ _ h.symm).elim

def Alternates (s : Demo) : Prop := ∀ events cmd before,
  s.history = events ++ .sent cmd :: before → (DemoEvent.sent cmd).isSettlement = true →
    ∃ resp, lastCompletion before = some resp ∧ cmd = settlement (settlements before) resp.reference

theorem alternates_step (h : Alternates s) (hremembers : Remembers s) (hs : Transition s a s') :
    Alternates s' := by
  intro events cmd before hhistory hcmd
  rcases history_step hs with hsame | ⟨e, hadd⟩
  · exact h events cmd before (hsame.symm.trans hhistory) hcmd
  · rw [hadd] at hhistory
    cases events with
    | nil =>
        obtain ⟨rfl, rfl⟩ := List.cons.inj hhistory
        obtain ⟨hpc, rfl⟩ := pc_of_settlement hs hcmd hadd
        have hreported : s.Reported := by
          refine .inr (.inr ?_)
          rw [hpc]
          rfl
        obtain ⟨resp, hresp⟩ := Option.isSome_iff_exists.mp (hremembers.reported hreported)
        refine ⟨resp, hresp, ?_⟩
        rw [hremembers.settlement_eq, hremembers.response resp hresp]
    | cons e' events => exact h events cmd before (List.cons.inj hhistory).2 hcmd

/-- **Confirmations and voids alternate**: in every run, the settlement behind `n` others is a
confirmation if `n` is even and a void if it is odd, and has the reference of the completion
reported last before it. -/
theorem settlements_alternate (h : machine.Reachable s) {events before : List DemoEvent}
    {cmd : BooleanCommand} (hhistory : s.history = events ++ .sent cmd :: before)
    (hcmd : (DemoEvent.sent cmd).isSettlement = true) :
    ∃ resp, lastCompletion before = some resp ∧
      cmd = settlement (settlements before) resp.reference := by
  have hboth : Remembers s ∧ Alternates s := by
    apply h.invariant (I := fun s => Remembers s ∧ Alternates s)
    · intro s hs
      refine ⟨remembers_start hs, fun events cmd before hhistory => ?_⟩
      rw [hs.history] at hhistory
      cases events <;> cases hhistory
    · rintro s a s' ⟨hremembers, halternates⟩ _ hstep
      have hs := transition_of_step hstep
      exact ⟨remembers_step hremembers hs, alternates_step halternates hremembers hs⟩
  exact hboth.2 events cmd before hhistory hcmd

/-- Two approved payments, of one client after the other. -/
def twoPaymentsRun : List Action :=
  servedRun [] ++ List.replicate 7 .main ++ .established 2 :: List.replicate 3 .main ++
    iterations [4] ++ List.replicate 6 .tick ++ List.replicate 5 .main ++ iterations [10, 4] ++
    [.kioskStarts, .result .ok, .completion paidResponse, .callback, .callback] ++
    List.replicate 4 .main ++ iterations [8]

theorem settlements_alternate_twice :
    ∃ s before resp, machine.Reachable s ∧
      s.history = .sent (.voidTransaction paidResponse.reference) :: before ∧
      settlements before = 1 ∧ lastCompletion before = some resp ∧
      .voidTransaction paidResponse.reference = settlement (settlements before) resp.reference := by
  have hexec : (machine.exec (fun _ _ => True) boot twoPaymentsRun).map
      (fun s => (s.history.head?, settlements s.history.tail)) =
        some (some (.sent (.voidTransaction paidResponse.reference)), 1) := by decide +kernel
  obtain ⟨s, hs, hstate⟩ := Option.map_eq_some_iff.mp hexec
  obtain ⟨hhead, hcount⟩ := Prod.mk.inj hstate
  obtain ⟨before, hhistory⟩ := List.head?_eq_some_iff.mp hhead
  rw [hhistory] at hcount
  have hreach : machine.Reachable s := ⟨boot, boot_start, .of_exec hs⟩
  have hsplit : s.history = [] ++ .sent (.voidTransaction paidResponse.reference) :: before :=
    hhistory
  obtain ⟨resp, hresp, hcmd⟩ := settlements_alternate hreach hsplit rfl
  exact ⟨s, before, resp, hreach, hhistory, hcount, hresp, hcmd⟩

end Demo

end OtiKiosk
