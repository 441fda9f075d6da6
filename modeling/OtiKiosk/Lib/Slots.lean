import Mathlib

/-!
Numbered slots, each of them empty or taken, such as the descriptors of a process.
A number that was freed may be taken again, so what holds a slot is told from its
number only while nobody else can free it. `Slots.Sole` says that the entries of one
kind are those that a single variable refers to.
-/

namespace OtiKiosk

abbrev Slots (α : Type) := ℕ → Option α

namespace Slots

variable {α : Type} {t : Slots α} {P Q : α → Prop} {n : ℕ} {x : α} {o : Option ℕ}

def take (t : Slots α) (n : ℕ) (x : α) : Slots α := Function.update t n (some x)

def free (t : Slots α) (o : Option ℕ) : Slots α :=
  match o with
  | none => t
  | some n => Function.update t n none

def alter (t : Slots α) (n : ℕ) (f : α → α) : Slots α := Function.update t n ((t n).map f)

@[simp] theorem take_self : t.take n x n = some x := Function.update_self n _ t

@[simp] theorem free_self : t.free (some n) n = none := Function.update_self n _ t

@[simp] theorem alter_self (f : α → α) : t.alter n f n = (t n).map f := Function.update_self n _ t

theorem take_ne {m : ℕ} (h : m ≠ n) : t.take n x m = t m := Function.update_of_ne h _ t

theorem free_ne {m : ℕ} (h : m ≠ n) : t.free (some n) m = t m := Function.update_of_ne h _ t

theorem alter_ne {m : ℕ} (h : m ≠ n) (f : α → α) : t.alter n f m = t m := Function.update_of_ne h _ t

/-- What is left was there before. -/
theorem of_free {m : ℕ} (h : t.free o m = some x) : t m = some x ∧ o ≠ some m := by
  cases o with
  | none => exact ⟨h, (Option.some_ne_none m).symm⟩
  | some n =>
      by_cases hm : m = n
      · subst hm
        rw [free_self] at h
        cases h
      · rw [free_ne hm] at h
        exact ⟨h, fun heq => hm (Option.some.inj heq).symm⟩

/-- What is not freed stays. -/
theorem free_of_ne {m : ℕ} (h : t m = some x) (hne : o ≠ some m) : t.free o m = some x := by
  cases o with
  | none => exact h
  | some n =>
      have hm : m ≠ n := by
        rintro rfl
        exact hne rfl
      rw [free_ne hm, h]

/-! ### Tables with few entries -/

def Few (t : Slots α) : Prop := ∃ bound, ∀ n, bound ≤ n → t n = none

theorem few_empty : Few fun _ => (none : Option α) := ⟨0, fun _ _ => rfl⟩

theorem Few.exists_empty (h : t.Few) : ∃ n, t n = none := by
  obtain ⟨bound, hbound⟩ := h
  exact ⟨bound, hbound bound le_rfl⟩

theorem Few.free (h : t.Few) (o : Option ℕ) : (t.free o).Few := by
  obtain ⟨bound, hbound⟩ := h
  refine ⟨bound, fun n hn => Option.eq_none_iff_forall_ne_some.mpr fun x hx => ?_⟩
  have hx' := (of_free hx).1
  rw [hbound n hn] at hx'
  cases hx'

theorem Few.take (h : t.Few) (n : ℕ) (x : α) : (t.take n x).Few := by
  obtain ⟨bound, hbound⟩ := h
  refine ⟨max bound (n + 1), fun m hm => ?_⟩
  rw [take_ne (by omega)]
  exact hbound m (by omega)

theorem Few.alter (h : t.Few) (n : ℕ) (f : α → α) : (t.alter n f).Few := by
  obtain ⟨bound, hbound⟩ := h
  refine ⟨max bound (n + 1), fun m hm => ?_⟩
  rw [alter_ne (by omega)]
  exact hbound m (by omega)

/-! ### Entries of one kind -/

def Same (P : α → Prop) (t t' : Slots α) : Prop := ∀ n x, P x → (t' n = some x ↔ t n = some x)

theorem Same.refl (P : α → Prop) (t : Slots α) : Same P t t := fun _ _ _ => Iff.rfl

theorem Same.free {y : α} (hy : t n = some y) (hno : ¬P y) : Same P t (t.free (some n)) := by
  intro m x hP
  by_cases hm : m = n
  · subst hm
    rw [free_self, hy]
    refine iff_of_false (Option.some_ne_none x).symm ?_
    intro heq
    obtain rfl : y = x := Option.some.inj heq
    exact hno hP
  · rw [free_ne hm]

theorem Same.take (hfree : t n = none) (hno : ¬P x) : Same P t (t.take n x) := by
  intro m y hP
  by_cases hm : m = n
  · subst hm
    rw [take_self, hfree]
    refine iff_of_false ?_ (Option.some_ne_none y).symm
    intro heq
    obtain rfl : x = y := Option.some.inj heq
    exact hno hP
  · rw [take_ne hm]

theorem Same.alter {y : α} {f : α → α} (hy : t n = some y) (hno : ¬P y) (hno' : ¬P (f y)) :
    Same P t (t.alter n f) := by
  intro m x hP
  by_cases hm : m = n
  · subst hm
    rw [alter_self, hy]
    refine iff_of_false ?_ ?_
    · intro heq
      obtain rfl : f y = x := Option.some.inj heq
      exact hno' hP
    · intro heq
      obtain rfl : y = x := Option.some.inj heq
      exact hno hP
  · rw [alter_ne hm]

/-- The entries that satisfy `P` are those at `o`: there is one, or none. -/
def Sole (t : Slots α) (P : α → Prop) (o : Option ℕ) : Prop :=
  ∀ n, (∃ x, t n = some x ∧ P x) ↔ o = some n

theorem sole_empty : Sole (fun _ => none) P none := by
  intro n
  refine iff_of_false ?_ (Option.some_ne_none n).symm
  rintro ⟨x, hx, -⟩
  cases hx

theorem Sole.at (h : t.Sole P (some n)) : ∃ x, t n = some x ∧ P x := (h n).mpr rfl

theorem Sole.eq_of (h : t.Sole P o) (hx : t n = some x) (hP : P x) : o = some n :=
  (h n).mp ⟨x, hx, hP⟩

theorem Sole.not_of_none (h : t.Sole P none) (hx : t n = some x) : ¬P x :=
  fun hP => Option.some_ne_none n (h.eq_of hx hP).symm

theorem Sole.congr {t' : Slots α} (h : t.Sole P o) (hsame : Same P t t') : t'.Sole P o := by
  intro n
  rw [← h n]
  constructor
  · rintro ⟨x, hx, hP⟩
    exact ⟨x, (hsame n x hP).mp hx, hP⟩
  · rintro ⟨x, hx, hP⟩
    exact ⟨x, (hsame n x hP).mpr hx, hP⟩

/-- It is freed by its number. -/
theorem Sole.free (h : t.Sole P o) : (t.free o).Sole P none := by
  intro m
  refine iff_of_false ?_ (Option.some_ne_none m).symm
  rintro ⟨x, hx, hP⟩
  obtain ⟨hx, hne⟩ := of_free hx
  exact hne (h.eq_of hx hP)

theorem Sole.take (h : t.Sole P none) (hP : P x) : (t.take n x).Sole P (some n) := by
  intro m
  by_cases hm : m = n
  · subst hm
    rw [take_self]
    exact iff_of_true ⟨x, rfl, hP⟩ rfl
  · rw [take_ne hm]
    refine iff_of_false ?_ fun heq => hm (Option.some.inj heq).symm
    rw [h m]
    exact (Option.some_ne_none m).symm

/-- Changes that do not concern the kind of an entry. -/
theorem Sole.alter {f : α → α} (h : t.Sole P o) (hf : ∀ x, P (f x) ↔ P x) : (t.alter n f).Sole P o := by
  intro m
  rw [← h m]
  by_cases hm : m = n
  · subst hm
    rw [alter_self]
    cases t m with
    | none => exact Iff.rfl
    | some x => simp [hf]
  · rw [alter_ne hm]

end Slots

end OtiKiosk
