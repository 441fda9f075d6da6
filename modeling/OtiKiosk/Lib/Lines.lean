import Mathlib

/-!
Streams of lines. A stream is cut at a delimiter into the lines that are complete and
the beginning of the next one. Cutting may be done piece by piece, and the lines that
were joined are the lines that are cut again, if the delimiter is in none of them.
-/

namespace OtiKiosk

namespace Lines

variable {α : Type} [DecidableEq α] (d : α)

def push (c : α) : List (List α) × List α → List (List α) × List α
  | ([], rest) => ([], c :: rest)
  | (l :: ls, rest) => ((c :: l) :: ls, rest)

/-- The complete lines, and what stands behind the last delimiter. -/
def cut : List α → List (List α) × List α
  | [] => ([], [])
  | c :: s => if c = d then ([] :: (cut s).1, (cut s).2) else push c (cut s)

/-- The lines, each with its delimiter. -/
def join (ls : List (List α)) : List α := ls.flatMap fun l => l ++ [d]

variable {d}

theorem cut_delimiter (s : List α) : cut d (d :: s) = ([] :: (cut d s).1, (cut d s).2) := by
  rw [cut, if_pos rfl]

theorem cut_cons {c : α} (hc : c ≠ d) (s : List α) : cut d (c :: s) = push c (cut d s) := by
  rw [cut, if_neg hc]

/-- A stream without the delimiter is the beginning of a line. -/
theorem cut_open {s : List α} (hs : d ∉ s) : cut d s = ([], s) := by
  induction s with
  | nil => rfl
  | cons c s ih =>
      rw [List.mem_cons, not_or] at hs
      rw [cut_cons (Ne.symm hs.1), ih hs.2]
      rfl

/-- The first line of a stream. -/
theorem cut_line {l : List α} (hl : d ∉ l) (s : List α) :
    cut d (l ++ d :: s) = (l :: (cut d s).1, (cut d s).2) := by
  induction l with
  | nil => exact cut_delimiter s
  | cons c l ih =>
      rw [List.mem_cons, not_or] at hl
      rw [List.cons_append, cut_cons (Ne.symm hl.1), ih hl.2]
      rfl

/-- A stream is its lines and its rest, and the delimiter is in none of them. -/
theorem cut_spec (s : List α) :
    join d (cut d s).1 ++ (cut d s).2 = s ∧ d ∉ (cut d s).2 ∧ ∀ l ∈ (cut d s).1, d ∉ l := by
  induction s with
  | nil => exact ⟨rfl, List.not_mem_nil, fun l hl => absurd hl List.not_mem_nil⟩
  | cons c s ih =>
      obtain ⟨hjoin, hrest, hlines⟩ := ih
      by_cases hc : c = d
      · subst hc
        rw [cut_delimiter]
        refine ⟨congrArg (c :: ·) hjoin, hrest, ?_⟩
        exact List.forall_mem_cons.mpr ⟨List.not_mem_nil, hlines⟩
      · rw [cut_cons hc]
        generalize cut d s = r at hjoin hrest hlines ⊢
        obtain ⟨lines, rest⟩ := r
        have hmem : ∀ {t : List α}, d ∉ t → d ∉ c :: t := by
          intro t ht
          rw [List.mem_cons, not_or]
          exact ⟨Ne.symm hc, ht⟩
        cases lines with
        | nil => exact ⟨congrArg (c :: ·) hjoin, hmem hrest, hlines⟩
        | cons l ls =>
            obtain ⟨hl, hls⟩ := List.forall_mem_cons.mp hlines
            exact ⟨congrArg (c :: ·) hjoin, hrest, List.forall_mem_cons.mpr ⟨hmem hl, hls⟩⟩

/-- **Round trip**: the lines that were joined are cut again, before whatever follows. -/
theorem cut_join {ls : List (List α)} (hls : ∀ l ∈ ls, d ∉ l) (s : List α) :
    cut d (join d ls ++ s) = (ls ++ (cut d s).1, (cut d s).2) := by
  induction ls with
  | nil => rfl
  | cons l ls ih =>
      obtain ⟨hl, hls⟩ := List.forall_mem_cons.mp hls
      have hline := cut_line hl (join d ls ++ s)
      rw [ih hls] at hline
      have hsplit : join d (l :: ls) ++ s = l ++ d :: (join d ls ++ s) := by
        simp [join]
      rw [hsplit]
      exact hline

/-- Cutting may stop anywhere and go on with the rest. -/
theorem cut_append (s t : List α) :
    cut d (s ++ t) = ((cut d s).1 ++ (cut d ((cut d s).2 ++ t)).1, (cut d ((cut d s).2 ++ t)).2) := by
  obtain ⟨hjoin, -, hlines⟩ := cut_spec (d := d) s
  have hsplit : s ++ t = join d (cut d s).1 ++ ((cut d s).2 ++ t) := by
    rw [← List.append_assoc, hjoin]
  exact (congrArg (cut d) hsplit).trans (cut_join hlines _)

/-- The lines of a beginning are the first lines. -/
theorem cut_prefix {s t : List α} (h : s <+: t) : (cut d s).1 <+: (cut d t).1 := by
  obtain ⟨t, rfl⟩ := h
  rw [cut_append]
  exact List.prefix_append _ _

omit [DecidableEq α] in
theorem join_append (ls ls' : List (List α)) : join d (ls ++ ls') = join d ls ++ join d ls' :=
  List.flatMap_append

end Lines

end OtiKiosk
