import OtiKiosk.CJson.Blocks

/-!
What an item stands for, and that both prints of it are texts of RFC 8259 that mean
this. The two texts differ in their blanks only, and no string, whatever bytes it has,
can end early or hide the members behind it.
-/

namespace OtiKiosk

open Ascii Json

/-- What a part stands for; the items of a list with their names. -/
def CJsonPart.Meaning : CJsonPart → Type
  | .item => Datum
  | .list => List (Bytes × Datum)

namespace CJson

/-- An object stands for the first member of each name. -/
def meaning {part : CJsonPart} : CJson part → part.Meaning
  | .null => Datum.null
  | .false => Datum.bool Bool.false
  | .true => Datum.bool Bool.true
  | .number text => if text.bytes = ascii "null" then Datum.null else Datum.number text.bytes
  | .raw s => Datum.number (stringBytes s)
  | .string s => Datum.string (stringBytes s)
  | .array child => Datum.array (List.map Prod.snd child.meaning)
  | .object child => Datum.object fun name =>
      (List.find? (fun m => m.1 = name) child.meaning).map Prod.snd
  | .invalid => Datum.null
  | .nil => []
  | .cons name item next => (stringBytes name, item.meaning) :: next.meaning

def datum (item : CJson .item) : Datum := item.meaning

def entries (list : CJson .list) : List (Bytes × Datum) := list.meaning

def nesting {part : CJsonPart} : CJson part → ℕ
  | .array child => child.nesting + 1
  | .object child => child.nesting + 1
  | .cons _ item next => max item.nesting next.nesting
  | _ => 0

/-- There are no raw texts, and numbers are printed as RFC 8259 has them or as `null`. -/
def Plain {part : CJsonPart} : CJson part → Prop
  | .number text => text.bytes = ascii "null" ∨ ∃ n : Numeral, text.bytes = n.text
  | .raw _ => False
  | .array child => child.Plain
  | .object child => child.Plain
  | .cons _ item next => item.Plain ∧ next.Plain
  | _ => True

end CJson

theorem blank_isBlank (format : Bool) {w : Bytes} (h : IsBlank w) : IsBlank (blank format w) := by
  rw [blank]
  split_ifs
  · exact h
  · exact isBlank_nil

theorem newLine_isBlank (format : Bool) (d : ℕ) : IsBlank (newLine format d) := by
  have htabs : IsBlank (List.replicate d tab) := fun c hc => by
    rw [List.eq_of_mem_replicate hc]
    rfl
  intro c hc
  rcases List.mem_append.mp hc with hc | hc
  · exact blank_isBlank format (w := [newline]) (by decide) c hc
  · exact blank_isBlank format htabs c hc

def Stands (format : Bool) : {part : CJsonPart} → CJson part → Prop
  | .item, c => ∀ d, (c.value format d).WF strict ∧ (c.value format d).datum = c.datum ∧
      (c.value format d).depth = c.nesting
  | .list, c => ∀ d, (∀ m ∈ c.members format d, strict.string m.1 ∧ m.2.WF strict) ∧
      (c.members format d).map (fun m => (unescape m.1, m.2.datum)) = c.entries ∧
      ((c.members format d).map fun m => m.2.depth).foldr max 0 = c.nesting

section

variable {format : Bool} {child : CJson .list}

theorem stands_array (h : Stands format child) : Stands format (.array child) := by
  intro d
  obtain ⟨hwf, hmeaning, hdepth⟩ := h (d + 1)
  have hspace : IsBlank (blank format [space]) := blank_isBlank format (by decide)
  have hvalue : (CJson.array child).value format d = .node .square (spread [] (blank format [space]) []
      (((child.members format (d + 1)).map Prod.snd).map fun v => (.element, v))) := rfl
  rw [hvalue]
  refine ⟨spread_wf isBlank_nil hspace isBlank_nil ?_, ?_, ?_⟩
  · intro m hm
    simp only [List.mem_map] at hm
    obtain ⟨v, ⟨m, hm, rfl⟩, rfl⟩ := hm
    exact ⟨trivial, (hwf m hm).2⟩
  · show Datum.between .square (spread _ _ _ _).meaning = Datum.array (child.entries.map Prod.snd)
    rw [spread_meaning, ← hmeaning]
    simp only [Datum.between, List.map_map]
    rfl
  · show (spread _ _ _ _).depth + 1 = child.nesting + 1
    rw [spread_depth, ← hdepth]
    simp only [List.map_map]
    rfl

theorem stands_object (h : Stands format child) : Stands format (.object child) := by
  intro d
  obtain ⟨hwf, hmeaning, hdepth⟩ := h (d + 1)
  have htab : IsBlank (blank format [tab]) := blank_isBlank format (by decide)
  have hvalue : (CJson.object child).value format d = .node .curly (spread (newLine format (d + 1))
      (newLine format (d + 1)) (newLine format d)
      (labelled format (child.members format (d + 1)))) := rfl
  rw [hvalue]
  refine ⟨spread_wf (newLine_isBlank _ _) (newLine_isBlank _ _) (newLine_isBlank _ _) ?_, ?_, ?_⟩
  · intro m hm
    simp only [labelled, List.mem_map] at hm
    obtain ⟨m, hm, rfl⟩ := hm
    exact ⟨⟨(hwf m hm).1, isBlank_nil, htab⟩, (hwf m hm).2⟩
  · have hdatum : (CJson.object child).datum = .object fun name =>
        (child.entries.find? fun m => m.1 = name).map Prod.snd := rfl
    show Datum.between .curly (spread _ _ _ _).meaning = _
    rw [spread_meaning, hdatum, ← hmeaning]
    refine congrArg Datum.object (funext fun name => ?_)
    simp only [labelled, List.map_map, List.find?_map, Option.map_map]
    refine congrArg₂ Option.map rfl (List.find?_congr fun m hm => ?_)
    simp [Label.name]
  · show (spread _ _ _ _).depth + 1 = child.nesting + 1
    rw [spread_depth, ← hdepth]
    simp only [labelled, List.map_map]
    rfl

end

theorem stands_of_plain (format : Bool) {part : CJsonPart} {c : CJson part} (h : c.Plain) :
    Stands format c := by
  induction c with
  | null => exact fun d => ⟨trivial, rfl, rfl⟩
  | false => exact fun d => ⟨trivial, rfl, rfl⟩
  | true => exact fun d => ⟨trivial, rfl, rfl⟩
  | number text =>
      intro d
      have hvalue : (CJson.number text).value format d =
          if text.bytes = ascii "null" then .null else .number text.bytes := rfl
      have hdatum : (CJson.number text).datum =
          if text.bytes = ascii "null" then .null else .number text.bytes := rfl
      rw [hvalue, hdatum]
      by_cases hnull : text.bytes = ascii "null"
      · simp only [hnull, if_true]
        exact ⟨trivial, rfl, rfl⟩
      · simp only [hnull, if_false]
        exact ⟨h.resolve_left hnull, rfl, rfl⟩
  | raw s => exact h.elim
  | string s =>
      exact fun d => ⟨escapedText_chars _, congrArg Datum.string (unescape_escapedText _), rfl⟩
  | array child ih => exact stands_array (ih h)
  | object child ih => exact stands_object (ih h)
  | invalid => exact fun d => ⟨trivial, rfl, rfl⟩
  | nil => exact fun d => ⟨nofun, rfl, rfl⟩
  | cons name item next ihitem ihnext =>
      intro d
      obtain ⟨hitem, hdatum, hdepth⟩ := ihitem h.1 d
      obtain ⟨hnext, hentries, hnesting⟩ := ihnext h.2 d
      rw [CJson.members_cons]
      refine ⟨List.forall_mem_cons.mpr ⟨⟨escapedText_chars _, hitem⟩, hnext⟩, ?_, ?_⟩
      · rw [List.map_cons, hentries, unescape_escapedText, hdatum]
        rfl
      · rw [List.map_cons, List.foldr_cons, hdepth, hnesting]
        rfl

end OtiKiosk
