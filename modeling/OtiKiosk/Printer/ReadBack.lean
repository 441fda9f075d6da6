import OtiKiosk.Printer.Formats

/-!
What is read from an object that `mjson_printf` printed: for every member the argument
it was printed from, and nothing under any other name. A text between quotes in the
format of `build_command` can end the string and add members; one printed by `%Q` or
`%.*Q` cannot.
-/

namespace OtiKiosk

open Ascii Json

/-- The number read at the path is the one nearest to the integer, which is the integer itself if
that has less than 54 bits. -/
def ReadsInteger (s path : Bytes) (v : ℤ) : Prop :=
  ∃ d, mjsonGetNumber s s.length path = some d ∧ d = .ofRatio (decide (v < 0)) v.natAbs 1 ∧
    (v.natAbs < 2 ^ 53 → ∃ neg mag, d = .finite neg mag ∧ mag.IsWhole ∧ mag.trunc neg = v)

/-- A text is read at the path exactly into the buffers that have room for it and a terminator. -/
def ReadsText (s path text : Bytes) : Prop :=
  ∀ n, mjsonGetString s s.length path n = (text ++ [nul], some text.length) ↔ text.length < n

def Printed.ReadBack (s path : Bytes) : Printed → Prop
  | .text t => ReadsText s path t.bytes
  | .mem t => ReadsText s path t
  | .int v isSigned => ReadsInteger s path (integerValue v isSigned)
  | .long v isSigned => ReadsInteger s path (integerValue v isSigned)
  | .bool v => mjsonGetBool s s.length path = some (decide (v ≠ 0))
  | .base64 t => ∀ n, mjsonGetBase64 s s.length path n =
      (if t.length < n then t ++ [nul] else t.take n, min n t.length)

section

variable {s path : Bytes} {u : Option Located} (hfind : mjsonFind s s.length path = .of u)
  (hmember : ∀ v, u = some v → v.Member s)

include hfind hmember

theorem readsInteger_of {v : ℤ} (hu : u.map (·.value) = some (.number (intText v))) :
    ReadsInteger s path v := by
  refine ⟨(strtod (intText v)).1, ?_, strtod_intText v, fun hv => ?_⟩
  · rw [mjsonGetNumber_of hfind hmember]
    obtain ⟨w, rfl, hw⟩ := Option.map_eq_some_iff.mp hu
    rw [Option.bind_some, hw]
    rfl
  · have hnumber := (intNumeral v).lexicon
    rw [← intText_eq] at hnumber
    exact strtod_of_value hnumber (numeralValue_intText v) hv

theorem readsText_of {text : Bytes} (hu : u.map (·.value) = some (.string (escapeText text))) :
    ReadsText s path text := by
  intro n
  obtain ⟨w, rfl, hw⟩ := Option.map_eq_some_iff.mp hu
  rw [mjsonGetString_of hfind hmember, Option.bind_some, hw]
  refine (mjsonUnescape_eq_iff _ _ _).trans ?_
  exact ⟨And.right, fun hn => ⟨decode_escapeText text, hn⟩⟩

/-- What a lookup finds the value of an argument for is the argument. -/
theorem Printed.readBack_of {p : Printed} (hu : u.map (·.value) = some p.value) :
    p.ReadBack s path := by
  cases p with
  | text t => exact readsText_of hfind hmember hu
  | mem t => exact readsText_of hfind hmember hu
  | int v isSigned =>
      refine readsInteger_of hfind hmember ?_
      rw [hu, value, integerText_eq]
  | long v isSigned =>
      refine readsInteger_of hfind hmember ?_
      rw [hu, value, integerText_eq]
  | bool v =>
      obtain ⟨w, rfl, hw⟩ := Option.map_eq_some_iff.mp hu
      show mjsonGetBool s s.length path = _
      rw [mjsonGetBool_of hfind, Option.bind_some, hw, value]
      split_ifs with hv
      · rw [decide_eq_true hv]
        rfl
      · rw [decide_eq_false hv]
        rfl
  | base64 t =>
      intro n
      obtain ⟨w, rfl, hw⟩ := Option.map_eq_some_iff.mp hu
      rw [mjsonGetBase64_of hfind hmember, Option.bind_some, hw]
      exact mjsonBase64Dec_quads t n

end

structure Field where
  name : Bytes
  plain : IsPlain name
  isName : IsName name
  noPercent : percent ∉ name
  printed : Printed
  sound : printed.Sound

def Field.format (f : Field) : MemberFormat := ⟨f.name, f.noPercent, f.printed.format f.sound⟩

section

variable (fs : List Field)

def fieldMembers : List (Bytes × Value) := fs.map fun f => (f.name, f.printed.value)

theorem objectValue_fields : objectValue (fs.map Field.format) = object (fieldMembers fs) := by
  rw [objectValue, List.map_map]
  rfl

theorem objectArgs_fields :
    (objectFormat (fs.map Field.format)).args = fs.map fun f => f.printed.arg := by
  show (fs.map Field.format).flatMap (fun m => m.format.args) = _
  induction fs with
  | nil => rfl
  | cons f fs ih =>
      rw [List.map_cons, List.flatMap_cons, ih]
      rfl

/-- What is printed is an object to `mjson`. -/
theorem fields_denote : Denotes (object (fieldMembers fs)).text (object (fieldMembers fs)).text.length
    (object (fieldMembers fs)) 0 := by
  refine .of_text (object_wf ?_) ((object_depth (d := 0) ?_).trans (by decide)) ?_
  · intro m hm
    obtain ⟨f, -, rfl⟩ := List.mem_map.mp hm
    exact ⟨lexicon_chars f.plain.chars, f.printed.value_wf f.sound⟩
  · intro m hm
    obtain ⟨f, -, rfl⟩ := List.mem_map.mp hm
    exact (f.printed.value_depth).le
  · cases fieldMembers fs with
    | nil => exact ⟨.curly, _, rfl⟩
    | cons m ms => exact ⟨.curly, _, rfl⟩

/-- **Round trip** of `mjson_printf` and the readers: an object printed from any arguments gives
each argument back under its name, and has no other members. -/
theorem printf_read_back (hnodup : (fs.map Field.name).Nodup) :
    ∃ pieces, mjsonVprintf (objectFmt (fs.map Field.format)) (fs.map fun f => f.printed.arg) =
        some pieces ∧
      (∀ f ∈ fs, f.printed.ReadBack pieces.flatten (pathOf [f.name])) ∧
      ∀ name, IsName name → name ∉ fs.map Field.name →
        mjsonFind pieces.flatten pieces.flatten.length (pathOf [name]) = .none := by
  have hprint := (objectFormat (fs.map Field.format)).prints.vprintf
  rw [objectArgs_fields] at hprint
  obtain ⟨pieces, hpieces, hflat⟩ := hprint
  have hnames : (fieldMembers fs).map Prod.fst = fs.map Field.name := by
    rw [fieldMembers, List.map_map]
    rfl
  have hden := fields_denote fs
  have htext : pieces.flatten = (object (fieldMembers fs)).text := by
    rw [hflat, ← objectValue_fields]
    rfl
  refine ⟨pieces, hpieces, ?_, ?_⟩
  · intro f hf
    rw [htext]
    refine Printed.readBack_of (hden.mjsonFind_member f.isName)
      (fun v hv => member_of_member hden.in hv) ?_
    rw [Located.member_value]
    exact object_get_of_mem (by rw [hnames]; exact hnodup) (List.mem_map.mpr ⟨f, hf, rfl⟩)
  · intro name hname hmem
    rw [htext, hden.mjsonFind_member hname]
    have hnone : (Located.member ⟨0, object (fieldMembers fs)⟩ name).map (·.value) = none := by
      rw [Located.member_value]
      exact object_get_none (by rw [hnames]; exact hmem)
    rw [Option.map_eq_none_iff.mp hnone]
    rfl

end

/-- A text that closes the object it is printed into, if it is not escaped. -/
def referenceField : Field where
  name := ascii "reference"
  plain := by decide
  isName := by decide
  noPercent := by decide
  printed := .text ⟨ascii "\"\x7d", by decide⟩
  sound := trivial

def amountField : Field where
  name := ascii "amount"
  plain := by decide
  isName := by decide
  noPercent := by decide
  printed := .int (-250) true
  sound := trivial

theorem printf_read_back_two :
    objectFmt ([referenceField, amountField].map Field.format) =
        ascii "\x7b\"reference\":%Q,\"amount\":%d\x7d" ∧
      ∃ pieces, mjsonVprintf (objectFmt ([referenceField, amountField].map Field.format))
          ([referenceField, amountField].map fun f => f.printed.arg) = some pieces ∧
        (∀ f ∈ [referenceField, amountField], f.printed.ReadBack pieces.flatten (pathOf [f.name])) ∧
        ∀ name, IsName name → name ∉ [referenceField, amountField].map Field.name →
          mjsonFind pieces.flatten pieces.flatten.length (pathOf [name]) = .none :=
  ⟨by decide, printf_read_back [referenceField, amountField] (by decide)⟩

end OtiKiosk
