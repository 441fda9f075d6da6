import Mathlib

/-!
Sinks: places that take a text piece by piece, and say of each piece how much of it
they took. Where a text is cut into pieces matters to some sinks and not to others:
a sink is seamless for the pieces of which `Good` holds if two of them, one after the
other, are one longer piece to it. What such a sink makes of a whole output is then
what it makes of one piece (`Sink.Seamless.putAll_eq`).
-/

namespace OtiKiosk

structure Sink (State α : Type) where
  put : State → List α → State × ℕ

namespace Sink

variable {State α : Type} (S : Sink State α)

def putAll : State → List (List α) → State × ℕ
  | s, [] => (s, 0)
  | s, p :: ps => ((putAll (S.put s p).1 ps).1, (S.put s p).2 + (putAll (S.put s p).1 ps).2)

/-- The sink does not see where one good piece ends and the next begins. -/
structure Seamless (Good : List α → Prop) : Prop where
  good : ∀ {p q}, Good p → Good q → Good (p ++ q)
  append : ∀ s {p q}, Good p → Good q → S.put s (p ++ q) =
    ((S.put (S.put s p).1 q).1, (S.put s p).2 + (S.put (S.put s p).1 q).2)

variable {S} {Good : List α → Prop}

/-- An output of at least one piece is one piece. -/
theorem Seamless.putAll_eq (h : S.Seamless Good) (s : State) {p : List α} {ps : List (List α)}
    (hp : Good p) (hps : ∀ q ∈ ps, Good q) : S.putAll s (p :: ps) = S.put s (p ++ ps.flatten) := by
  induction ps generalizing p with
  | nil => simp [putAll]
  | cons q ps ih =>
      obtain ⟨hq, hps⟩ := List.forall_mem_cons.mp hps
      have hjoin := ih (h.good hp hq) hps
      rw [List.flatten_cons, ← List.append_assoc, ← hjoin]
      simp only [putAll, h.append s hp hq, Nat.add_assoc]

end Sink

end OtiKiosk
