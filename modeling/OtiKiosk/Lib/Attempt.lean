import Mathlib

/-!
Programs that may fail, over any state. The state they end in when they fail is kept,
and where a program has no meaning at all, there is none. A triple is about total
correctness: the program has a meaning, and says how it ends when it succeeds and when
it fails.
-/

namespace OtiKiosk

/-- Whether the program succeeds, and the state it ends in, if that has a meaning. -/
abbrev Attempt (State : Type) := State → Option (Bool × State)

namespace Attempt

variable {State : Type}

def succeed : Attempt State := fun s => some (true, s)

def fail : Attempt State := fun s => some (false, s)

def andThen (a b : Attempt State) : Attempt State := fun s =>
  match a s with
  | some (true, s') => b s'
  | r => r

def andDo (a : Attempt State) (f : State → State) : Attempt State := a.andThen fun s => some (true, f s)

def reading (a : State → Attempt State) : Attempt State := fun s => a s s

theorem andThen_assoc (a b c : Attempt State) :
    (a.andThen b).andThen c = a.andThen (b.andThen c) := by
  funext s
  simp only [andThen]
  cases a s with
  | none => rfl
  | some r =>
      obtain ⟨r, s'⟩ := r
      cases r <;> rfl

theorem andThen_succeed (a : Attempt State) : a.andThen succeed = a := by
  funext s
  simp only [andThen]
  cases a s with
  | none => rfl
  | some r =>
      obtain ⟨r, s'⟩ := r
      cases r <;> rfl

/-- From the states of `pre` on, the program ends in `post` if it succeeds, and in `failed` if it
does not. -/
def Triple (pre : State → Prop) (a : Attempt State) (post failed : State → Prop) : Prop :=
  ∀ s, pre s → ∃ r s', a s = some (r, s') ∧ (r = true → post s') ∧ (r = false → failed s')

variable {pre pre' mid post post' failed failed' : State → Prop} {a b : Attempt State}

theorem Triple.fail (h : ∀ s, pre s → failed s) : Triple pre fail post failed :=
  fun s hs => ⟨false, s, rfl, nofun, fun _ => h s hs⟩

theorem Triple.andThen (ha : Triple pre a mid failed) (hb : Triple mid b post failed) :
    Triple pre (a.andThen b) post failed := by
  intro s hs
  obtain ⟨r, s', hrun, hmid, hfailed⟩ := ha s hs
  cases r with
  | true =>
      obtain ⟨r', t, hrun', hpost⟩ := hb s' (hmid rfl)
      refine ⟨r', t, ?_, hpost⟩
      rw [Attempt.andThen, hrun]
      exact hrun'
  | false =>
      refine ⟨false, s', ?_, nofun, fun _ => hfailed rfl⟩
      rw [Attempt.andThen, hrun]

theorem Triple.andDo {f : State → State} (h : Triple pre a (fun s => post (f s)) failed) :
    Triple pre (a.andDo f) post failed :=
  h.andThen fun s hs => ⟨true, f s, rfl, fun _ => hs, nofun⟩

theorem Triple.conseq (h : Triple pre a post failed) (hpre : ∀ s, pre' s → pre s)
    (hpost : ∀ s, post s → post' s) (hfailed : ∀ s, failed s → failed' s) :
    Triple pre' a post' failed' := by
  intro s hs
  obtain ⟨r, s', hrun, hsucceeds, hfails⟩ := h s (hpre s hs)
  exact ⟨r, s', hrun, fun hr => hpost s' (hsucceeds hr), fun hr => hfailed s' (hfails hr)⟩

/-- A program that reads the state is the one for what it reads. -/
theorem Triple.reading {f : State → Attempt State} (h : ∀ s, pre s → f s = a)
    (ha : Triple pre a post failed) : Triple pre (reading f) post failed := by
  intro s hs
  rw [Attempt.reading, h s hs]
  exact ha s hs

end Attempt

end OtiKiosk
