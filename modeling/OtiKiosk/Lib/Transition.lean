import Mathlib

/-!
Machines that take one atomic step at a time. A machine says where it may
start and what each action does to a state, when the action is possible. Runs
may be restricted by a guard on their steps: a guard is how an assumption about
the surroundings, or the condition under which a property holds, enters a
statement about runs.

An invariant is proved once, for the start states and for one step, and then
holds in every state any guarded run reaches (`Machine.Reach.invariant`).
-/

namespace OtiKiosk

/-- A transition system with named actions. -/
structure Machine (State Action : Type) where
  start : State → Prop
  step : State → Action → Option State

namespace Machine

variable {State Action : Type} (M : Machine State Action)

/-- One step whose action the guard admits. -/
def Next (guard : State → Action → Prop) (s s' : State) : Prop :=
  ∃ a, guard s a ∧ M.step s a = some s'

/-- Finite continuations of a state, all of whose steps satisfy `guard`. -/
def Leads (guard : State → Action → Prop) : State → State → Prop :=
  Relation.ReflTransGen (M.Next guard)

/-- The states reached by runs all of whose steps satisfy `guard`. -/
def Reach (guard : State → Action → Prop) (s : State) : Prop :=
  ∃ s₀, M.start s₀ ∧ M.Leads guard s₀ s

abbrev Reachable : State → Prop := M.Reach fun _ _ => True

/-- The state after a list of actions, when each of them is admitted and possible. -/
def exec (guard : State → Action → Prop) [∀ s a, Decidable (guard s a)] :
    State → List Action → Option State
  | s, [] => some s
  | s, a :: as => if guard s a then (M.step s a).bind (exec guard · as) else none

variable {M} {guard : State → Action → Prop}

theorem Leads.refl {s : State} : M.Leads guard s s := Relation.ReflTransGen.refl

theorem Leads.trans {s s' s'' : State} (h : M.Leads guard s s') (h' : M.Leads guard s' s'') :
    M.Leads guard s s'' := Relation.ReflTransGen.trans h h'

/-- One more step in front of a continuation. -/
theorem Leads.head {s s' s'' : State} {a : Action} (hg : guard s a)
    (hs : M.step s a = some s') (h : M.Leads guard s' s'') : M.Leads guard s s'' :=
  Relation.ReflTransGen.head ⟨a, hg, hs⟩ h

/-- A property kept by every guarded step is kept along a continuation. -/
theorem Leads.invariant {I : State → Prop}
    (hstep : ∀ s a s', I s → guard s a → M.step s a = some s' → I s')
    {s s' : State} (h : M.Leads guard s s') (hI : I s) : I s' := by
  induction h with
  | refl => exact hI
  | tail _ hnext ih =>
      obtain ⟨a, hg, hs⟩ := hnext
      exact hstep _ a _ ih hg hs

/-- **The invariant rule.** -/
theorem Reach.invariant {I : State → Prop} (hstart : ∀ s, M.start s → I s)
    (hstep : ∀ s a s', I s → guard s a → M.step s a = some s' → I s')
    {s : State} (h : M.Reach guard s) : I s := by
  obtain ⟨s₀, h₀, hl⟩ := h
  exact hl.invariant hstep (hstart s₀ h₀)

theorem Reach.leads {s s' : State} (h : M.Reach guard s) (hl : M.Leads guard s s') :
    M.Reach guard s' := by
  obtain ⟨s₀, h₀, hl₀⟩ := h
  exact ⟨s₀, h₀, hl₀.trans hl⟩

/-- A continuation may be allowed more. -/
theorem Leads.mono {guard' : State → Action → Prop} (hg : ∀ s a, guard s a → guard' s a) {s s' : State}
    (h : M.Leads guard s s') : M.Leads guard' s s' := by
  induction h with
  | refl => exact .refl
  | tail _ hnext ih =>
      obtain ⟨a, ha, hs⟩ := hnext
      exact Relation.ReflTransGen.tail ih ⟨a, hg _ a ha, hs⟩

/-! ### What can still happen -/

variable (M) (guard) in
def Can (goal : State → Prop) (s : State) : Prop := ∃ s', M.Leads guard s s' ∧ goal s'

section

variable {goal : State → Prop} {s s' : State}

theorem Can.here (h : goal s) : M.Can guard goal s := ⟨s, .refl, h⟩

theorem Can.of_step {t : State} (h : M.Can guard goal t) {a : Action} (hg : guard s a)
    (hs : M.step s a = some t) : M.Can guard goal s := by
  obtain ⟨u, hleads, hu⟩ := h
  exact ⟨u, .head hg hs hleads, hu⟩

theorem Can.trans {goal' : State → Prop} (h : M.Can guard goal s)
    (hnext : ∀ t, M.Leads guard s t → goal t → M.Can guard goal' t) : M.Can guard goal' s := by
  obtain ⟨t, hleads, ht⟩ := h
  obtain ⟨u, hleads', hu⟩ := hnext t hleads ht
  exact ⟨u, hleads.trans hleads', hu⟩

end

/-- A list of actions that can be executed is a continuation. -/
theorem Leads.of_exec [∀ s a, Decidable (guard s a)] {s s' : State} {as : List Action}
    (h : M.exec guard s as = some s') : M.Leads guard s s' := by
  induction as generalizing s with
  | nil =>
      simp only [exec, Option.some.injEq] at h
      exact h ▸ Leads.refl
  | cons a as ih =>
      rw [exec] at h
      by_cases hg : guard s a
      · rw [if_pos hg] at h
        obtain ⟨m, hs, hrest⟩ := Option.bind_eq_some_iff.mp h
        exact Leads.head hg hs (ih hrest)
      · rw [if_neg hg] at h
        cases h

/-! ### Records -/

section

variable {Record : Type} {first : Record} {note : State → Action → Record → Record}

/-- The machine, with a record of its run. No step depends on the record. -/
def observe (M : Machine State Action) (first : Record) (note : State → Action → Record → Record) :
    Machine (State × Record) Action where
  start s := M.start s.1 ∧ s.2 = first
  step s a := (M.step s.1 a).map fun s' => (s', note s.1 a s.2)

/-- The invariant rule, for states and records. -/
theorem Reach.observed {I : State → Record → Prop} {guard : State × Record → Action → Prop}
    (hstart : ∀ s, M.start s → I s first)
    (hstep : ∀ s r a s', I s r → guard (s, r) a → M.step s a = some s' → I s' (note s a r))
    {s : State × Record} (h : (M.observe first note).Reach guard s) : I s.1 s.2 := by
  apply h.invariant (I := fun s => I s.1 s.2)
  · rintro ⟨s, r⟩ ⟨hs, hr⟩
    subst hr
    exact hstart s hs
  · rintro ⟨s, r⟩ a _ hI hg hboth
    obtain ⟨s', hs, rfl⟩ := Option.map_eq_some_iff.mp hboth
    exact hstep s r a s' hI hg hs

end

end Machine

end OtiKiosk
