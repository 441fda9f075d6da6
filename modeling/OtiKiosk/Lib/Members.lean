import OtiKiosk.Lib.Datum

/-!
Lookups in objects without blanks: the members are those the object was made of, and
the first of a name is found. Items that are spread out with blanks between them, as a
printer does that formats its output.
-/

namespace OtiKiosk

open Ascii

namespace Json

theorem restOf_entries (members : List (Bytes × Value)) (i : ℕ) :
    ((restOf members).entries i).map (fun e => (e.1, e.2.value)) =
      members.map fun m => (some m.1, m.2) := by
  induction members generalizing i with
  | nil => rfl
  | cons m members ih =>
      simp only [restOf, Phrase.entries, List.map_cons]
      exact congrArg _ (ih _)

theorem object_pairs (members : List (Bytes × Value)) :
    (object members).pairs = members.map fun m => (some m.1, m.2) := by
  cases members with
  | nil => rfl
  | cons m members =>
      simp only [Phrase.pairs, object, Located.members, Phrase.entries, List.map_cons]
      exact congrArg _ (restOf_entries members _)

/-- The first member of a name is found. -/
theorem object_get (members : List (Bytes × Value)) (name : Bytes) :
    (object members).get name = (members.find? fun m => m.1 = name).map Prod.snd := by
  rw [Phrase.get, object_pairs, List.find?_map, Option.map_map]
  have hname : ((fun e : Option Bytes × Value => decide (e.1 = some name)) ∘
      fun m : Bytes × Value => (some m.1, m.2)) = fun m => decide (m.1 = name) := by
    funext m
    simp
  rw [hname]
  rfl

/-- Among members of different names, each is found by its name. -/
theorem object_get_of_mem {members : List (Bytes × Value)} (hnodup : (members.map Prod.fst).Nodup)
    {name : Bytes} {v : Value} (hmem : (name, v) ∈ members) : (object members).get name = some v := by
  rw [object_get]
  induction members with
  | nil => cases hmem
  | cons m members ih =>
      rw [List.map_cons, List.nodup_cons] at hnodup
      rcases List.mem_cons.mp hmem with rfl | hmem
      · rw [List.find?_cons_of_pos (by simp)]
        rfl
      · have hne : m.1 ≠ name := by
          rintro rfl
          exact hnodup.1 (List.mem_map.mpr ⟨_, hmem, rfl⟩)
        rw [List.find?_cons_of_neg (by simpa using hne)]
        exact ih hnodup.2 hmem

theorem object_get_none {members : List (Bytes × Value)} {name : Bytes}
    (h : name ∉ members.map Prod.fst) : (object members).get name = none := by
  rw [object_get, Option.map_eq_none_iff, List.find?_eq_none]
  intro m hm hname
  exact h (List.mem_map.mpr ⟨m, hm, by simpa using hname⟩)

theorem restOf_depth {members : List (Bytes × Value)} {d : ℕ} (h : ∀ m ∈ members, m.2.depth ≤ d) :
    (restOf members).depth ≤ d := by
  induction members with
  | nil => exact Nat.zero_le d
  | cons m members ih =>
      obtain ⟨hm, hmembers⟩ := List.forall_mem_cons.mp h
      exact max_le hm (ih hmembers)

theorem object_depth {members : List (Bytes × Value)} {d : ℕ} (h : ∀ m ∈ members, m.2.depth ≤ d) :
    (object members).depth ≤ d + 1 := by
  cases members with
  | nil => exact Nat.succ_le_succ (Nat.zero_le d)
  | cons m members =>
      obtain ⟨hm, hmembers⟩ := List.forall_mem_cons.mp h
      exact Nat.succ_le_succ (max_le hm (restOf_depth hmembers))

/-- The members of an object, each behind a comma. -/
def joinedMembers (members : List (Bytes × Bytes)) : Bytes :=
  members.flatMap fun m => comma :: (quoted m.1 ++ colon :: m.2)

theorem restOf_text (members : List (Bytes × Value)) :
    (restOf members).text = joinedMembers (members.map fun m => (m.1, m.2.text)) := by
  induction members with
  | nil => rfl
  | cons m members ih =>
      simp only [restOf, Phrase.text, Label.text, joinedMembers, List.map_cons, List.flatMap_cons,
        List.nil_append, ih, List.cons_append, List.append_assoc]

theorem object_text (name : Bytes) (v : Value) (members : List (Bytes × Value)) :
    (object ((name, v) :: members)).text =
      lbrace :: (quoted name ++ colon :: v.text ++
        joinedMembers (members.map fun m => (m.1, m.2.text))) ++ [rbrace] := by
  rw [← restOf_text]
  simp only [object, Phrase.text, Label.text, Bracket.openByte, Bracket.closeByte,
    List.nil_append, List.cons_append, List.append_assoc]

/-! ### Items with blanks between them -/

/-- The items behind the first, each behind the blank `lead`. -/
def spreadRest {b : Bracket} (lead stop : Bytes) : List (Label b × Value) → Phrase (.rest b)
  | [] => .stop stop
  | (label, v) :: ms => .more [] (.item lead label v (spreadRest lead stop ms))

def spread {b : Bracket} (first lead stop : Bytes) : List (Label b × Value) → Phrase (.items b)
  | [] => .nil stop
  | (label, v) :: ms => .item first label v (spreadRest lead stop ms)

section

variable {b : Bracket} {L : Lexicon} {first lead stop : Bytes} {ms : List (Label b × Value)}

theorem spread_wf (hfirst : IsBlank first) (hlead : IsBlank lead) (hstop : IsBlank stop)
    (h : ∀ m ∈ ms, m.1.WF L ∧ m.2.WF L) : (spread first lead stop ms).WF L := by
  have hrest : ∀ ms : List (Label b × Value), (∀ m ∈ ms, m.1.WF L ∧ m.2.WF L) →
      (spreadRest lead stop ms).WF L := by
    intro ms h
    induction ms with
    | nil => exact hstop
    | cons m ms ih =>
        obtain ⟨hm, hms⟩ := List.forall_mem_cons.mp h
        exact ⟨isBlank_nil, ⟨hlead, hm.1, hm.2, ih hms⟩, False.elim⟩
  cases ms with
  | nil => exact hstop
  | cons m ms =>
      obtain ⟨hm, hms⟩ := List.forall_mem_cons.mp h
      exact ⟨hfirst, hm.1, hm.2, hrest ms hms⟩

/-- The blanks do not matter. -/
theorem spread_meaning (first lead stop : Bytes) (ms : List (Label b × Value)) :
    (spread first lead stop ms).meaning = ms.map fun m => (m.1.name, m.2.datum) := by
  have hrest : ∀ ms : List (Label b × Value),
      (spreadRest lead stop ms).meaning = ms.map fun m => (m.1.name, m.2.datum) := by
    intro ms
    induction ms with
    | nil => rfl
    | cons m ms ih => exact congrArg _ ih
  cases ms with
  | nil => rfl
  | cons m ms => exact congrArg _ (hrest ms)

theorem spread_depth (first lead stop : Bytes) (ms : List (Label b × Value)) :
    (spread first lead stop ms).depth = (ms.map fun m => m.2.depth).foldr max 0 := by
  have hrest : ∀ ms : List (Label b × Value),
      (spreadRest lead stop ms).depth = (ms.map fun m => m.2.depth).foldr max 0 := by
    intro ms
    induction ms with
    | nil => rfl
    | cons m ms ih => exact congrArg _ ih
  cases ms with
  | nil => rfl
  | cons m ms => exact congrArg _ (hrest ms)

end

def elementsText (between : Bytes) : List Bytes → Bytes
  | [] => []
  | v :: vs => v ++ ((if vs.isEmpty then [] else between) ++ elementsText between vs)

/-- The texts of members, each on a line that `lead` begins and `stop` ends. -/
def membersText (lead stop : Bytes) : List Bytes → Bytes
  | [] => []
  | m :: ms => lead ++ (m ++ ((if ms.isEmpty then [] else [comma]) ++ stop)) ++
      membersText lead stop ms

theorem spread_elements (lead : Bytes) (vs : List Value) :
    (spread [] lead [] (vs.map fun v => (Label.element, v))).text =
      elementsText (comma :: lead) (vs.map Phrase.text) := by
  cases vs with
  | nil => rfl
  | cons v vs =>
      show [] ++ ([] ++ (v.text ++ _)) = _
      rw [List.nil_append, List.nil_append, List.map_cons, elementsText]
      refine congrArg _ ?_
      induction vs generalizing v with
      | nil => rfl
      | cons w vs ih =>
          show [] ++ comma :: (lead ++ ([] ++ (w.text ++ _))) = _
          rw [List.nil_append, List.nil_append, ih w]
          simp [elementsText]

theorem spread_members (lead stop indent : Bytes) (ms : List (Label .curly × Value)) :
    stop ++ (membersText lead stop (ms.map fun m => m.1.text ++ m.2.text) ++ indent) =
      (spread (stop ++ lead) (stop ++ lead) (stop ++ indent) ms).text := by
  have hrest : ∀ ms : List (Label .curly × Value),
      ((if ms.isEmpty then [] else [comma]) ++ stop) ++
          (membersText lead stop (ms.map fun m => m.1.text ++ m.2.text) ++ indent) =
        (spreadRest (stop ++ lead) (stop ++ indent) ms).text := by
    intro ms
    induction ms with
    | nil => rfl
    | cons m ms ih =>
        show _ = [] ++ comma :: (stop ++ lead ++ (m.1.text ++ (m.2.text ++ _)))
        rw [← ih]
        simp [membersText, List.isEmpty_map]
  cases ms with
  | nil => rfl
  | cons m ms =>
      show _ = stop ++ lead ++ (m.1.text ++ (m.2.text ++ _))
      rw [← hrest]
      simp [membersText, List.isEmpty_map]

end Json

end OtiKiosk
