import Mathlib

/-!
Accounts that are kept one transaction at a time. A history, with the last entry
first, says when a transaction was opened, which references became due, and which
were settled. It is in order when each reference that becomes due is settled
exactly once before the next transaction is opened, and none is settled more
often than it became due (`Settles`).

A history in which nothing becomes due out of its turn is recognised by an
automaton with three phases. A machine that follows the automaton keeps its
accounts in order (`settles_of_phase`).
-/

namespace OtiKiosk

inductive Entry (Ref : Type)
  | opened
  | due (ref : Ref)
  | settled (ref : Ref)
  deriving DecidableEq

namespace Ledger

variable {Ref : Type} [DecidableEq Ref]

/-- The accounts are in order; only references that became due after a transaction was opened
count. -/
structure Settles (history : List (Entry Ref)) : Prop where
  /-- Each was settled at most once since. -/
  once : ∀ later ref earlier, history = later ++ .due ref :: earlier → .opened ∈ earlier →
    .opened ∉ later → later.count (.settled ref) ≤ 1
  /-- Each was settled exactly once before the next transaction was opened. -/
  before : ∀ after later ref earlier, history = after ++ .opened :: (later ++ .due ref :: earlier) →
    .opened ∈ earlier → .opened ∉ later → later.count (.settled ref) = 1
  /-- None was settled more often than it became due. -/
  total : ∀ ref, history.count (.settled ref) ≤ history.count (.due ref)

inductive Phase (Ref : Type)
  | closed
  | opened
  | owed (ref : Ref)
  deriving DecidableEq

def Phase.next : Phase Ref → Entry Ref → Option (Phase Ref)
  | .closed, .opened => some .opened
  | .opened, .opened => some .opened
  | .opened, .due ref => some (.owed ref)
  | .owed ref, .due ref' => if ref' = ref then some (.owed ref) else none
  | .owed ref, .settled ref' => if ref' = ref then some .closed else none
  | _, _ => none

/-- The phase after a history, if each entry came in its turn. -/
def phase : List (Entry Ref) → Option (Phase Ref)
  | [] => some .closed
  | e :: history => (phase history).bind (·.next e)

theorem phase_cons {e : Entry Ref} {history : List (Entry Ref)} {p : Phase Ref}
    (h : phase (e :: history) = some p) : ∃ q, phase history = some q ∧ q.next e = some p :=
  Option.bind_eq_some_iff.mp h

/-- What is owed since the last opening: each reference that became due was settled so often. -/
def Since (history : List (Entry Ref)) (P : Ref → ℕ → Prop) : Prop :=
  ∀ later ref earlier, history = later ++ .due ref :: earlier → .opened ∉ later →
    P ref (later.count (.settled ref))

/-- What a phase says about the references that became due in it. -/
def Phase.Reports : Phase Ref → Ref → ℕ → Prop
  | .closed, _, n => n = 1
  | .opened, _, _ => False
  | .owed ref, ref', n => ref' = ref ∧ n = 0

theorem Since.cons_opened (history : List (Entry Ref)) (P : Ref → ℕ → Prop) :
    Since (.opened :: history) P := by
  intro later ref earlier h hlater
  cases later with
  | nil => cases h
  | cons e later =>
      obtain ⟨rfl, -⟩ := List.cons.inj h
      exact (hlater List.mem_cons_self).elim

/-- An entry that opens nothing changes the numbers of what was due before. -/
theorem Since.cons {history : List (Entry Ref)} {P Q : Ref → ℕ → Prop} {e : Entry Ref}
    (h : Since history P) (hdue : ∀ ref, e = .due ref → Q ref 0)
    (hnext : ∀ ref n, P ref n → Q ref (n + if e = .settled ref then 1 else 0)) :
    Since (e :: history) Q := by
  intro later ref earlier hsplit hlater
  cases later with
  | nil =>
      obtain ⟨rfl, -⟩ := List.cons.inj hsplit
      exact hdue ref rfl
  | cons e' later =>
      obtain ⟨rfl, rfl⟩ := List.cons.inj hsplit
      rw [List.count_cons]
      have hlater' : .opened ∉ later := fun hmem => hlater (List.mem_cons_of_mem _ hmem)
      simpa only [beq_iff_eq] using hnext ref _ (h later ref earlier rfl hlater')

/-- **What is owed.** Each phase knows how often the references were settled. -/
theorem since_of_phase {history : List (Entry Ref)} {p : Phase Ref} (h : phase history = some p) :
    Since history p.Reports := by
  induction history generalizing p with
  | nil =>
      intro later ref earlier hsplit _
      cases later <;> cases hsplit
  | cons e history ih =>
      obtain ⟨q, hq, hnext⟩ := phase_cons h
      have hsince := ih hq
      cases q with
      | closed =>
          cases e with
          | opened => exact Since.cons_opened _ _
          | due ref => cases hnext
          | settled ref => cases hnext
      | opened =>
          cases e with
          | opened => exact Since.cons_opened _ _
          | due ref =>
              cases hnext
              refine hsince.cons ?_ fun _ _ hfalse => hfalse.elim
              rintro _ ⟨⟩
              exact ⟨rfl, rfl⟩
          | settled ref => cases hnext
      | owed ref =>
          cases e with
          | opened => cases hnext
          | due ref' =>
              rw [Phase.next] at hnext
              split_ifs at hnext with href
              cases hnext
              subst href
              refine hsince.cons ?_ ?_
              · rintro _ ⟨⟩
                exact ⟨rfl, rfl⟩
              · rintro r n ⟨hr, hn⟩
                exact ⟨hr, by simpa using hn⟩
          | settled ref' =>
              rw [Phase.next] at hnext
              split_ifs at hnext with href
              cases hnext
              subst href
              refine hsince.cons (fun _ => nofun) ?_
              rintro r n ⟨rfl, rfl⟩
              simp [Phase.Reports]

/-- What is owed was not settled as often as it became due. -/
theorem count_of_phase {history : List (Entry Ref)} {p : Phase Ref} (h : phase history = some p) :
    (∀ ref, history.count (.settled ref) ≤ history.count (.due ref)) ∧
      ∀ ref, p = .owed ref → history.count (.settled ref) < history.count (.due ref) := by
  induction history generalizing p with
  | nil =>
      cases h
      exact ⟨fun _ => Nat.le_refl _, nofun⟩
  | cons e history ih =>
      obtain ⟨q, hq, hnext⟩ := phase_cons h
      obtain ⟨hle, howed⟩ := ih hq
      cases e with
      | opened =>
          refine ⟨fun ref => by simpa using hle ref, ?_⟩
          rintro ref rfl
          cases q <;> cases hnext
      | due ref' =>
          have hcount : ∀ ref, (Entry.due ref' :: history).count (.settled ref) =
              history.count (.settled ref) := fun ref => List.count_cons_of_ne (by nofun)
          have hgrow : ∀ ref, history.count (.due ref) ≤ (Entry.due ref' :: history).count (.due ref) :=
            fun ref => List.count_le_count_cons
          refine ⟨fun ref => ?_, ?_⟩
          · rw [hcount]
            exact Nat.le_trans (hle ref) (hgrow ref)
          · rintro ref rfl
            rw [hcount]
            cases q with
            | closed => cases hnext
            | opened =>
                cases hnext
                rw [List.count_cons_self]
                exact Nat.lt_succ_of_le (hle _)
            | owed ref'' =>
                rw [Phase.next] at hnext
                split_ifs at hnext
                cases hnext
                exact Nat.lt_of_lt_of_le (howed ref rfl) (hgrow ref)
      | settled ref' =>
          cases q with
          | closed | opened => cases hnext
          | owed ref =>
              rw [Phase.next] at hnext
              split_ifs at hnext with href
              cases hnext
              subst href
              refine ⟨fun r => ?_, nofun⟩
              have hdue : (Entry.settled ref' :: history).count (.due r) = history.count (.due r) :=
                List.count_cons_of_ne (by nofun)
              rw [hdue, List.count_cons]
              split_ifs with hr
              · obtain rfl : ref' = r := by simpa using hr
                exact howed ref' rfl
              · exact hle r

/-- **Accounts.** A history of entries that come in their turn is in order. -/
theorem settles_of_phase {history : List (Entry Ref)} {p : Phase Ref}
    (h : phase history = some p) : Settles history where
  once := by
    intro later ref earlier hsplit _ hlater
    have hreport := since_of_phase h later ref earlier hsplit hlater
    cases p with
    | closed => exact Nat.le_of_eq hreport
    | opened => exact hreport.elim
    | owed ref' =>
        rw [hreport.2]
        exact Nat.zero_le 1
  before := by
    induction history generalizing p with
    | nil =>
        intro after later ref earlier hsplit
        cases after <;> cases hsplit
    | cons e history ih =>
        intro after later ref earlier hsplit hearlier hlater
        obtain ⟨q, hq, hnext⟩ := phase_cons h
        cases after with
        | cons e' after =>
            obtain ⟨-, hsplit⟩ := List.cons.inj hsplit
            exact ih hq after later ref earlier hsplit hearlier hlater
        | nil =>
            obtain ⟨rfl, hrest⟩ := List.cons.inj hsplit
            have hreport := since_of_phase hq later ref earlier hrest hlater
            -- nothing is opened while something is owed
            cases q with
            | closed => exact hreport
            | opened => exact hreport.elim
            | owed ref' => cases hnext
  total := (count_of_phase h).1

end Ledger

end OtiKiosk
