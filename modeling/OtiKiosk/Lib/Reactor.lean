import Mathlib

/-!
Components that react to one item of input after the other, in a way that depends
on a control value. The control value is chosen by the surroundings, from the
outputs they have seen so far. Two inputs are equivalent when no surroundings can
tell them apart by the outputs.

The outputs for one item form a block: the first of them is a head, the others
are not. `Reactor.equivalent_iff` says that it is enough to compare what the
items draw at best, when the surroundings always choose the control value that
the next item wants.
-/

namespace OtiKiosk

/-- A head, followed by outputs that are no heads. -/
def IsBlock {Out : Type} (isHead : Out → Bool) (l : List Out) : Prop :=
  ∃ h t, l = h :: t ∧ isHead h = true ∧ ∀ x ∈ t, isHead x = false

structure Reactor (Item Control Out : Type) where
  out : Control → Item → List Out
  isHead : Out → Bool
  block : ∀ e a, out e a = [] ∨ IsBlock isHead (out e a)
  /-- The control value an item wants. -/
  want : Item → Control
  idle : ∀ a, out (want a) a = [] → ∀ e, out e a = []
  /-- Items that draw the same at best draw the same always. -/
  same : ∀ a b, out (want a) a = out (want b) b → ∀ e, out e a = out e b
  /-- Items each of which can draw what the other draws at best draw the same at best. -/
  exchange : ∀ a b e e', out e b = out (want a) a → out e' a = out (want b) b →
    out (want a) a = out (want b) b

namespace Reactor

variable {Item Control Out : Type} (R : Reactor Item Control Out)

/-- What an item draws at best. -/
def best (a : Item) : List Out := R.out (R.want a) a

def run (app : List Out → Control) : List Out → List Item → List Out
  | done, [] => done
  | done, a :: as => run app (done ++ R.out (app done) a) as

/-- No surroundings can tell the inputs apart. -/
def Equivalent (as bs : List Item) : Prop := ∀ app, R.run app [] as = R.run app [] bs

/-! ### Blocks -/

section

variable {isHead : Out → Bool}

def StartsWithHead (isHead : Out → Bool) (l : List Out) : Prop := ∀ h ∈ l.head?, isHead h = true

theorem block_unique {l l' r r' : List Out} (hl : IsBlock isHead l) (hl' : IsBlock isHead l')
    (hr : StartsWithHead isHead r) (hr' : StartsWithHead isHead r') (h : l ++ r = l' ++ r') :
    l = l' ∧ r = r' := by
  obtain ⟨a, t, rfl, -, ht⟩ := hl
  obtain ⟨a', t', rfl, -, ht'⟩ := hl'
  have htail : ∀ {t r : List Out}, (∀ x ∈ t, isHead x = false) → StartsWithHead isHead r →
      (t ++ r).takeWhile (fun x => !isHead x) = t := by
    intro t r ht hr
    rw [List.takeWhile_append_of_pos (by simpa using ht)]
    cases r with
    | nil => simp
    | cons b r => simp [hr b rfl]
  rw [List.cons_append, List.cons_append, List.cons.injEq] at h
  obtain ⟨rfl, h⟩ := h
  have htt : t = t' := by rw [← htail ht hr, h, htail ht' hr']
  subst htt
  exact ⟨rfl, List.append_cancel_left h⟩

theorem countP_block {l : List Out} (h : IsBlock isHead l) : l.countP isHead = 1 := by
  obtain ⟨a, t, rfl, ha, ht⟩ := h
  rw [List.countP_cons_of_pos ha, List.countP_eq_zero.mpr (by simpa using ht)]

theorem block_startsWithHead {l : List Out} (h : IsBlock isHead l) (r : List Out) :
    StartsWithHead isHead (l ++ r) := by
  obtain ⟨a, t, rfl, ha, -⟩ := h
  intro b hb
  rw [List.cons_append, List.head?_cons, Option.mem_some_iff] at hb
  exact hb ▸ ha

end

/-! ### Runs -/

/-- A run adds blocks, at most one an item. -/
theorem run_eq (app : List Out → Control) (done : List Out) (as : List Item) :
    ∃ more, R.run app done as = done ++ more ∧ StartsWithHead R.isHead more ∧
      more.countP R.isHead ≤ as.length := by
  induction as generalizing done with
  | nil => exact ⟨[], (List.append_nil _).symm, nofun, le_rfl⟩
  | cons a as ih =>
      obtain ⟨more, hrun, hhead, hcount⟩ := ih (done ++ R.out (app done) a)
      refine ⟨R.out (app done) a ++ more, ?_, ?_, ?_⟩
      · rw [run, hrun, List.append_assoc]
      · rcases R.block (app done) a with hnil | hblock
        · rw [hnil]
          exact hhead
        · exact block_startsWithHead hblock more
      · rw [List.countP_append, List.length_cons]
        rcases R.block (app done) a with hnil | hblock
        · rw [hnil, List.countP_nil]
          omega
        · rw [countP_block hblock]
          omega

/-- The items that can draw something. -/
def Active (a : Item) : Prop := R.best a ≠ []

theorem best_block {a : Item} (ha : R.Active a) : IsBlock R.isHead (R.best a) :=
  (R.block _ a).resolve_left ha

theorem bests_startsWithHead {as : List Item} (has : ∀ a ∈ as, R.Active a) :
    StartsWithHead R.isHead (as.flatMap R.best) := by
  cases as with
  | nil => exact nofun
  | cons a as => exact block_startsWithHead (R.best_block (has a (by simp))) _

theorem countP_bests {as : List Item} (has : ∀ a ∈ as, R.Active a) :
    (as.flatMap R.best).countP R.isHead = as.length := by
  induction as with
  | nil => rfl
  | cons a as ih =>
      rw [List.flatMap_cons, List.countP_append, countP_block (R.best_block (has a (by simp))),
        ih fun b hb => has b (by simp [hb]), List.length_cons, Nat.add_comm]

/-- Items that draw nothing can be left out. -/
theorem run_filter [DecidableEq Out] (app : List Out → Control) (done : List Out) (as : List Item) :
    R.run app done as = R.run app done (as.filter fun a => R.best a ≠ []) := by
  induction as generalizing done with
  | nil => rfl
  | cons a as ih =>
      by_cases ha : R.best a = []
      · rw [List.filter_cons_of_neg (by simpa using ha), run, R.idle a ha, List.append_nil, ih]
      · rw [List.filter_cons_of_pos (by simpa using ha), run, run, ih]

theorem bests_filter [DecidableEq Out] (as : List Item) :
    as.flatMap R.best = (as.filter fun a => R.best a ≠ []).flatMap R.best := by
  induction as with
  | nil => rfl
  | cons a as ih =>
      by_cases ha : R.best a = []
      · rw [List.filter_cons_of_neg (by simpa using ha), List.flatMap_cons, ha, List.nil_append, ih]
      · rw [List.filter_cons_of_pos (by simpa using ha), List.flatMap_cons, List.flatMap_cons, ih]

theorem active_filter [DecidableEq Out] (as : List Item) :
    ∀ a ∈ as.filter fun a => R.best a ≠ [], R.Active a := by
  intro a ha
  have hbest : R.best a ≠ [] := of_decide_eq_true (List.mem_filter.mp ha).2
  exact hbest

/-! ### Comparing inputs -/

theorem bests_unique {as bs : List Item} (has : ∀ a ∈ as, R.Active a) (hbs : ∀ b ∈ bs, R.Active b)
    (h : as.flatMap R.best = bs.flatMap R.best) :
    List.Forall₂ (fun a b => R.best a = R.best b) as bs := by
  induction as generalizing bs with
  | nil =>
      cases bs with
      | nil => exact .nil
      | cons b bs =>
          rw [List.flatMap_nil, List.flatMap_cons] at h
          exact (hbs b (by simp) (List.append_eq_nil_iff.mp h.symm).1).elim
  | cons a as ih =>
      cases bs with
      | nil =>
          rw [List.flatMap_nil, List.flatMap_cons] at h
          exact (has a (by simp) (List.append_eq_nil_iff.mp h).1).elim
      | cons b bs =>
          have has' : ∀ a ∈ as, R.Active a := fun x hx => has x (by simp [hx])
          have hbs' : ∀ b ∈ bs, R.Active b := fun x hx => hbs x (by simp [hx])
          rw [List.flatMap_cons, List.flatMap_cons] at h
          obtain ⟨hab, hrest⟩ := block_unique (R.best_block (has a (by simp)))
            (R.best_block (hbs b (by simp))) (R.bests_startsWithHead has')
            (R.bests_startsWithHead hbs') h
          exact .cons hab (ih has' hbs' hrest)

theorem bests_congr {as bs : List Item}
    (h : List.Forall₂ (fun a b => R.best a = R.best b) as bs) :
    as.flatMap R.best = bs.flatMap R.best := by
  induction h with
  | nil => rfl
  | cons hab _ ih => rw [List.flatMap_cons, List.flatMap_cons, hab, ih]

theorem run_congr {as bs : List Item} (h : List.Forall₂ (fun a b => R.best a = R.best b) as bs)
    (app : List Out → Control) (done : List Out) : R.run app done as = R.run app done bs := by
  induction h generalizing done with
  | nil => rfl
  | cons hab _ ih => rw [run, run, R.same _ _ hab, ih]

/-- Surroundings that wait for these items, one after the other. -/
def waitFor [DecidableEq Out] (e : Control) : List Item → List Out → Control
  | [], _ => e
  | a :: as, done =>
      if done = [] then R.want a else waitFor e as (done.drop (R.best a).length)

theorem waitFor_eq [DecidableEq Out] (e : Control) {pre : List Item} (hpre : ∀ a ∈ pre, R.Active a)
    (a : Item) (as : List Item) : R.waitFor e (pre ++ a :: as) (pre.flatMap R.best) = R.want a := by
  induction pre with
  | nil => rfl
  | cons b pre ih =>
      have hne : (b :: pre).flatMap R.best ≠ [] := by
        rw [List.flatMap_cons]
        exact fun h => hpre b (by simp) (List.append_eq_nil_iff.mp h).1
      rw [List.cons_append, waitFor, if_neg hne, List.flatMap_cons, List.drop_left]
      exact ih fun x hx => hpre x (by simp [hx])

/-- They get out of the items all that is in them. -/
theorem run_waitFor [DecidableEq Out] (e : Control) (pre : List Item) {as : List Item}
    (hall : ∀ a ∈ pre ++ as, R.Active a) :
    R.run (R.waitFor e (pre ++ as)) (pre.flatMap R.best) as = (pre ++ as).flatMap R.best := by
  induction as generalizing pre with
  | nil => rw [List.append_nil, run]
  | cons a as ih =>
      have hpre : ∀ b ∈ pre, R.Active b := fun b hb => hall b (by simp [hb])
      have hsplit : pre ++ a :: as = (pre ++ [a]) ++ as := by simp
      have hdone : pre.flatMap R.best ++ R.best a = (pre ++ [a]).flatMap R.best := by simp
      rw [run, R.waitFor_eq e hpre]
      change R.run _ (pre.flatMap R.best ++ R.best a) as = _
      rw [hdone, hsplit]
      exact ih (pre ++ [a]) (hsplit ▸ hall)

/-- An input that is no longer than another and draws all that is in it does so item by item. -/
theorem draws_of_run {app : List Out → Control} {as bs : List Item} (has : ∀ a ∈ as, R.Active a)
    {done : List Out} (hlen : bs.length ≤ as.length)
    (h : R.run app done bs = done ++ as.flatMap R.best) :
    List.Forall₂ (fun a b => ∃ e, R.out e b = R.best a) as bs := by
  induction as generalizing bs done with
  | nil =>
      obtain rfl := List.length_eq_zero_iff.mp (Nat.le_zero.mp hlen)
      exact .nil
  | cons a as ih =>
      have hcount := R.countP_bests has
      cases bs with
      | nil =>
          rw [run] at h
          have hnil := List.append_cancel_left ((List.append_nil done).trans h)
          rw [← hnil, List.countP_nil] at hcount
          cases hcount
      | cons b bs =>
          rw [run] at h
          obtain ⟨more, hrun, hhead, hmore⟩ := R.run_eq app (done ++ R.out (app done) b) bs
          rw [hrun, List.append_assoc] at h
          have h := List.append_cancel_left h
          rcases R.block (app done) b with hnil | hblock
          · -- too few heads are left
            rw [hnil, List.nil_append] at h
            rw [← h] at hcount
            simp only [List.length_cons] at hlen hcount
            omega
          · have has' : ∀ a ∈ as, R.Active a := fun x hx => has x (by simp [hx])
            rw [List.flatMap_cons] at h
            obtain ⟨hout, hrest⟩ := block_unique hblock (R.best_block (has a (by simp))) hhead
              (R.bests_startsWithHead has') h
            rw [hrest] at hrun
            exact .cons ⟨_, hout⟩ (ih has' (Nat.le_of_succ_le_succ hlen) hrun)

theorem forall₂_best {as bs : List Item}
    (h : List.Forall₂ (fun a b => ∃ e, R.out e b = R.best a) as bs)
    (h' : List.Forall₂ (fun b a => ∃ e, R.out e a = R.best b) bs as) :
    List.Forall₂ (fun a b => R.best a = R.best b) as bs := by
  induction h with
  | nil => exact .nil
  | cons hab _ ih =>
      obtain ⟨e, hab⟩ := hab
      cases h' with
      | cons hba hrest =>
          obtain ⟨e', hba⟩ := hba
          exact .cons (R.exchange _ _ e e' hab hba) (ih hrest)

/-- Inputs that no surroundings can tell apart draw the same at best. -/
theorem forall₂_of_equivalent [DecidableEq Out] (e : Control) {as bs : List Item}
    (has : ∀ a ∈ as, R.Active a) (hbs : ∀ b ∈ bs, R.Active b) (h : R.Equivalent as bs) :
    List.Forall₂ (fun a b => R.best a = R.best b) as bs := by
  have hlen : ∀ {as bs : List Item}, (∀ a ∈ as, R.Active a) → R.Equivalent as bs →
      ∃ app, R.run app [] bs = [] ++ as.flatMap R.best ∧ as.length ≤ bs.length := by
    intro as bs has h
    have hrun : R.run (R.waitFor e as) [] bs = as.flatMap R.best := by
      rw [← h]
      exact R.run_waitFor e [] has
    obtain ⟨more, hmore, -, hcount⟩ := R.run_eq (R.waitFor e as) [] bs
    rw [hmore, List.nil_append] at hrun
    refine ⟨R.waitFor e as, ?_, ?_⟩
    · rw [hmore, hrun]
    · rw [← R.countP_bests has, ← hrun]
      exact hcount
  obtain ⟨app, hrun, hle⟩ := hlen has h
  obtain ⟨app', hrun', hle'⟩ := hlen hbs fun app => (h app).symm
  exact R.forall₂_best (R.draws_of_run has hle' hrun) (R.draws_of_run hbs hle hrun')

/-- **Equivalence.** No surroundings can tell the inputs apart exactly when the inputs draw the same
from surroundings that always wait for what comes next. -/
theorem equivalent_iff [DecidableEq Out] [Nonempty Control] (as bs : List Item) :
    R.Equivalent as bs ↔ as.flatMap R.best = bs.flatMap R.best := by
  obtain ⟨e⟩ := ‹Nonempty Control›
  have hactive := R.active_filter
  have hfilter : R.Equivalent as bs ↔
      R.Equivalent (as.filter fun a => R.best a ≠ []) (bs.filter fun a => R.best a ≠ []) := by
    refine forall_congr' fun app => ?_
    rw [R.run_filter app [] as, R.run_filter app [] bs]
  rw [hfilter, R.bests_filter as, R.bests_filter bs]
  constructor
  · intro h
    exact R.bests_congr (R.forall₂_of_equivalent e (hactive as) (hactive bs) h)
  · intro h app
    exact R.run_congr (R.bests_unique (hactive as) (hactive bs) h) app []

theorem map_best_eq_iff {as bs : List Item} (has : ∀ a ∈ as, R.Active a)
    (hbs : ∀ b ∈ bs, R.Active b) :
    as.map R.best = bs.map R.best ↔ as.flatMap R.best = bs.flatMap R.best := by
  constructor
  · intro h
    rw [List.flatMap_def, List.flatMap_def, h]
  · intro h
    have hall := R.bests_unique has hbs h
    clear h has hbs
    induction hall with
    | nil => rfl
    | cons hab _ ih => rw [List.map_cons, List.map_cons, hab, ih]

/-- The same, where what an item draws at best is told by something it carries. -/
theorem equivalent_iff_carries [DecidableEq Out] [Nonempty Control] {Key : Type}
    {carries : Item → Option Key} {draw : Key → List Out} (hinj : Function.Injective draw)
    (hne : ∀ k, draw k ≠ []) (hbest : ∀ a, R.best a = ((carries a).map draw).getD [])
    (as bs : List Item) : R.Equivalent as bs ↔ as.filterMap carries = bs.filterMap carries := by
  have hfilter : ∀ as : List Item,
      (as.filter fun a => R.best a ≠ []).map R.best = (as.filterMap carries).map draw := by
    intro as
    induction as with
    | nil => rfl
    | cons a as ih =>
        cases ha : carries a with
        | none =>
            have hnil : R.best a = [] := by rw [hbest, ha]; rfl
            rw [List.filter_cons_of_neg (by simpa using hnil), List.filterMap_cons_none ha, ih]
        | some k =>
            have hk : R.best a = draw k := by rw [hbest, ha]; rfl
            rw [List.filter_cons_of_pos (by simpa [hk] using hne k), List.filterMap_cons_some ha,
              List.map_cons, List.map_cons, ih, hk]
  have hactive := R.active_filter
  rw [R.equivalent_iff, R.bests_filter as, R.bests_filter bs,
    ← R.map_best_eq_iff (hactive as) (hactive bs), hfilter, hfilter]
  exact (List.map_injective_iff.mpr hinj).eq_iff

end Reactor

end OtiKiosk
