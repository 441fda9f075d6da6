import OtiKiosk.Demo.Clients

/-!
How long a message is shown. `main` leaves `ST_MESSAGE` for `ST_IDLE` when more than
five seconds have passed since it entered it, as long as the 32 bits of `get_time_sec`
hold the time.
-/

namespace OtiKiosk

namespace Demo

def noteShown (s : Demo) (a : Action) (shown : Option ℕ) : Option ℕ :=
  if a = .main ∧ s.pc = .messageExpiration then some s.clock else shown

/-- The expiration of a message that was shown at some time. -/
def expirationOf (time : ℕ) : BitVec 32 := getTimeSec time + 5

/-- What the record and the expiration time have to do with each other. -/
structure Shown (s : Demo) (shown : Option ℕ) : Prop where
  located : Located s
  expiring : s.curState = .message → s.pc ≠ .messageExpiration →
    ∃ time, shown = some time ∧ time ≤ s.clock ∧ s.timeStateExpiration = expirationOf time
  expired : s.pc = .setIdle → ∃ time clock, shown = some time ∧ time ≤ clock ∧ clock ≤ s.clock ∧
    0 < expirationOf time ∧ expirationOf time < getTimeSec clock

variable {s s' : Demo} {a : Action} {shown : Option ℕ}

theorem noteShown_of_pc {pc : MainPc} (hpc : s.pc = pc) (hne : pc ≠ .messageExpiration) :
    noteShown s a shown = shown := by
  rw [noteShown, if_neg]
  rintro ⟨-, hpc'⟩
  exact hne (hpc.symm.trans hpc')

theorem noteShown_of_action (ha : a ≠ .main) : noteShown s a shown = shown := by
  rw [noteShown, if_neg]
  rintro ⟨ha', -⟩
  exact ha ha'

theorem shown_start (h : Start s) : Shown s none where
  located := located_start h
  expiring := by
    rw [h.curState]
    exact fun hcur => by cases hcur
  expired := by
    rw [h.pc]
    exact fun hpc => by cases hpc

/-- Steps that leave the state and its expiration alone. -/
theorem Shown.move (h : Shown s shown) (hlocated : Located s') (hcur : s'.curState = s.curState)
    (hexpiration : s'.timeStateExpiration = s.timeStateExpiration) (hclock : s.clock ≤ s'.clock)
    (hpc : s'.curState = .message → s.pc ≠ .messageExpiration)
    (hexpired : s'.pc = .setIdle → s.pc = .setIdle) : Shown s' shown where
  located := hlocated
  expiring := by
    intro hmessage _
    obtain ⟨time, hshown, htime, hexpires⟩ := h.expiring (hcur ▸ hmessage) (hpc hmessage)
    exact ⟨time, hshown, htime.trans hclock, hexpiration.trans hexpires⟩
  expired := by
    intro hidle
    obtain ⟨time, clock, hshown, htime, hle, hexpires⟩ := h.expired (hexpired hidle)
    exact ⟨time, clock, hshown, htime, hle.trans hclock, hexpires⟩

theorem Shown.goes (h : Shown s shown) {pc pc' : MainPc} (hpc : s.pc = pc) (hgoes : Goes s pc pc')
    (hlocated : Located { s with pc := pc' }) : Shown { s with pc := pc' } shown := by
  have hne : s.pc ≠ .messageExpiration := by
    rw [hpc]
    cases hgoes <;> exact fun hmexp => by cases hmexp
  cases hgoes with
  | expired hpos hlt hcur =>
      -- the message has expired
      obtain ⟨time, hshown, htime, hexpires⟩ := h.expiring hcur hne
      rw [hexpires] at hpos hlt
      exact ⟨hlocated, fun _ _ => ⟨time, hshown, htime, hexpires⟩,
        fun _ => ⟨time, s.clock, hshown, htime, le_rfl, hpos, hlt⟩⟩
  | _ => exact h.move hlocated rfl rfl le_rfl (fun _ => hne) fun hidle => by cases hidle

theorem shown_step (h : Shown s shown) (hs : Transition s a s') :
    Shown s' (noteShown s a shown) := by
  have hlocated := located_step h.located hs
  -- steps of `main` at another point, which do not lead to the end of the message
  have hmain : ∀ {pc}, s.pc = pc → pc ≠ .messageExpiration → s'.curState = s.curState →
      s'.timeStateExpiration = s.timeStateExpiration → s'.clock = s.clock → s'.pc ≠ .setIdle →
      Shown s' (noteShown s a shown) := by
    intro pc hpc hne hcur hexpiration hclock hidle
    rw [noteShown_of_pc hpc hne]
    exact h.move hlocated hcur hexpiration hclock.ge (fun _ => hpc ▸ hne) fun hto => (hidle hto).elim
  -- steps of others
  have hother : a ≠ .main → s'.curState = s.curState →
      s'.timeStateExpiration = s.timeStateExpiration → s.clock ≤ s'.clock → s'.pc = s.pc →
      Shown s' (noteShown s a shown) := by
    intro ha hcur hexpiration hclock hpc
    rw [noteShown_of_action ha]
    refine ⟨hlocated, fun hmessage hne => ?_, fun hidle => ?_⟩
    · rw [hpc] at hne
      obtain ⟨time, hshown, htime, hexpires⟩ := h.expiring (hcur ▸ hmessage) hne
      exact ⟨time, hshown, htime.trans hclock, hexpiration.trans hexpires⟩
    · obtain ⟨time, clock, hshown, htime, hle, hexpires⟩ := h.expired (hpc ▸ hidle)
      exact ⟨time, clock, hshown, htime, hle.trans hclock, hexpires⟩
  cases hs with
  | goes hpc hgoes =>
      have hne : s.pc ≠ .messageExpiration := by
        rw [hpc]
        cases hgoes <;> exact fun hmexp => by cases hmexp
      rw [noteShown_of_pc rfl hne]
      exact h.goes hpc hgoes hlocated
  | sets hpc hsets => cases hsets <;> exact hmain hpc nofun rfl rfl rfl nofun
  | shows line1 line2 hpc hshows => cases hshows <;> exact hmain hpc nofun rfl rfl rfl nofun
  | @returns pc pc' ret hpc hreturns =>
      have hnote : noteShown s (.result ret) shown = shown := noteShown_of_action nofun
      rw [hnote]
      refine h.move hlocated rfl rfl le_rfl ?_ ?_
      · intro _ hmexp
        rw [hpc] at hmexp
        subst hmexp
        cases hreturns with
        | initFailed _ hinit => rcases hinit with hinit | hinit | hinit <;> cases hinit
      · intro hidle
        change pc' = _ at hidle
        cases hreturns <;> cases hidle
  | status ret status hpc => exact hmain hpc nofun rfl rfl rfl nofun
  | statusAgain ret status hpc => exact hmain hpc nofun rfl rfl rfl nofun
  | assign hpc =>
      rw [noteShown_of_pc hpc nofun]
      refine ⟨hlocated, fun hmessage hne => ?_, fun hidle => ?_⟩
      · have hnew : s.newState = .message := hmessage
        refine (hne ?_).elim
        show entry s.newState = _
        rw [hnew]
        rfl
      · change entry s.newState = _ at hidle
        cases hnew : s.newState <;> rw [hnew] at hidle <;> cases hidle
  | expiration hpc =>
      rcases hpc with hpc | hpc
      · rw [noteShown_of_pc hpc nofun]
        refine ⟨hlocated, fun hmessage _ => ?_, nofun⟩
        cases (h.located.at_pc hpc rfl).symm.trans hmessage
      · refine ⟨hlocated, fun _ _ => ⟨s.clock, ?_, le_rfl, rfl⟩, nofun⟩
        rw [noteShown, if_pos ⟨rfl, hpc⟩]
  | preAuthorize hpc => exact hmain hpc nofun rfl rfl rfl nofun
  | accepted hpc =>
      have hnote : noteShown s (.result .ok) shown = shown := noteShown_of_action nofun
      rw [hnote]
      refine ⟨hlocated, fun hmessage _ => ?_, nofun⟩
      cases (h.located.at_pc hpc rfl).symm.trans hmessage
  | completeClear hpc => exact hmain hpc nofun rfl rfl rfl nofun
  | completeJson hpc => exact hmain hpc nofun rfl rfl rfl nofun
  | settle hpc => exact hmain hpc nofun rfl rfl rfl nofun
  | tick => exact hother nofun rfl rfl (Nat.le_succ _) rfl
  | _ => exact hother nofun rfl rfl le_rfl rfl

def shownRun : List Action :=
  servedRun [] ++ List.replicate 10 .main ++ iterations [4] ++ List.replicate 6 .tick ++
    List.replicate 4 .main

end Demo

end OtiKiosk
