import OtiKiosk.Lib.Json

/-!
What JSON texts mean. Two texts of one value may differ in their blanks, in the
order of the members of an object and in how the characters of a string are
spelled. A `Datum` keeps none of this: its strings are byte sequences, and an
object is the function from names to members. Numbers stay as they are written.

A string may spell a character by its UTF-16 code units, in hexadecimal digits;
then it means the character in UTF-8.
-/

namespace OtiKiosk

open Ascii

namespace Json

/-! ### Strings -/

inductive StringUnit
  | byte (b : UInt8)
  | code (u : ℕ)

/-- The byte that a letter stands for after a backslash. -/
def escapeByte (c : UInt8) : UInt8 :=
  match c with
  | 98 => backspace
  | 102 => formFeed
  | 110 => newline
  | 114 => carriageReturn
  | 116 => tab
  | c => c

def hexNumber (ds : Bytes) : ℕ := ds.foldl (fun n d => 16 * n + digitValue d) 0

def stringUnits : Bytes → List StringUnit
  | [] => []
  | c :: s =>
      if c = backslash then
        match s with
        | [] => [.byte c]
        | e :: s =>
            if e = 117 then
              match s with
              | d₁ :: d₂ :: d₃ :: d₄ :: s => .code (hexNumber [d₁, d₂, d₃, d₄]) :: stringUnits s
              | _ => []
            else .byte (escapeByte e) :: stringUnits s
      else .byte c :: stringUnits s

/-- A character in UTF-8. -/
def utf8 (n : ℕ) : Bytes :=
  let tail (k : ℕ) : UInt8 := .ofNat (0x80 + n / 64 ^ k % 64)
  if n < 0x80 then [.ofNat n]
  else if n < 0x800 then [.ofNat (0xC0 + n / 64), tail 0]
  else if n < 0x10000 then [.ofNat (0xE0 + n / 64 ^ 2), tail 1, tail 0]
  else [.ofNat (0xF0 + n / 64 ^ 3), tail 2, tail 1, tail 0]

def IsHighSurrogate (u : ℕ) : Prop := 0xD800 ≤ u ∧ u < 0xDC00

instance (u : ℕ) : Decidable (IsHighSurrogate u) := inferInstanceAs (Decidable (_ ∧ _))

def IsLowSurrogate (u : ℕ) : Prop := 0xDC00 ≤ u ∧ u < 0xE000

instance (u : ℕ) : Decidable (IsLowSurrogate u) := inferInstanceAs (Decidable (_ ∧ _))

/-- Two surrogates in a row are one character. -/
def joinUnits : List StringUnit → Bytes
  | [] => []
  | .byte b :: us => b :: joinUnits us
  | [.code u] => utf8 u
  | .code u :: .byte b :: us => utf8 u ++ b :: joinUnits us
  | .code u :: .code v :: us =>
      if IsHighSurrogate u ∧ IsLowSurrogate v then
        utf8 (0x10000 + (u - 0xD800) * 0x400 + (v - 0xDC00)) ++ joinUnits us
      else utf8 u ++ joinUnits (.code v :: us)

/-- The characters that the text between two quotes means. -/
def unescape (raw : Bytes) : Bytes := joinUnits (stringUnits raw)

theorem stringUnits_plain {c : UInt8} (hc : c ≠ backslash) (s : Bytes) :
    stringUnits (c :: s) = .byte c :: stringUnits s := by
  rw [stringUnits.eq_def]
  simp only [hc, if_false]

theorem stringUnits_escape {c : UInt8} (hc : c ≠ 117) (s : Bytes) :
    stringUnits (backslash :: c :: s) = .byte (escapeByte c) :: stringUnits s := by
  rw [stringUnits.eq_def]
  simp only [hc, if_true, if_false]

theorem stringUnits_unicode (d₁ d₂ d₃ d₄ : UInt8) (s : Bytes) :
    stringUnits (backslash :: 117 :: d₁ :: d₂ :: d₃ :: d₄ :: s) =
      .code (hexNumber [d₁, d₂, d₃, d₄]) :: stringUnits s := by
  rw [stringUnits.eq_def]
  simp only [if_true]

theorem joinUnits_code {u : ℕ} (hu : ¬IsHighSurrogate u) (us : List StringUnit) :
    joinUnits (.code u :: us) = utf8 u ++ joinUnits us := by
  cases us with
  | nil => rw [joinUnits, joinUnits, List.append_nil]
  | cons v us =>
      cases v with
      | byte b => rfl
      | code v => rw [joinUnits, if_neg fun h => hu h.1]

theorem joinUnits_bytes (w : Bytes) : joinUnits (w.map .byte) = w := by
  induction w with
  | nil => rfl
  | cons b w ih => rw [List.map_cons, joinUnits, ih]

theorem unescape_plain {c : UInt8} (hc : c ≠ backslash) (s : Bytes) :
    unescape (c :: s) = c :: unescape s := by
  rw [unescape, stringUnits_plain hc]
  rfl

theorem unescape_escape {c : UInt8} (hc : c ≠ 117) (s : Bytes) :
    unescape (backslash :: c :: s) = escapeByte c :: unescape s := by
  rw [unescape, stringUnits_escape hc]
  rfl

theorem unescape_unicode {d₁ d₂ d₃ d₄ : UInt8} (h : ¬IsHighSurrogate (hexNumber [d₁, d₂, d₃, d₄]))
    (s : Bytes) : unescape (backslash :: 117 :: d₁ :: d₂ :: d₃ :: d₄ :: s) =
      utf8 (hexNumber [d₁, d₂, d₃, d₄]) ++ unescape s := by
  rw [unescape, stringUnits_unicode, joinUnits_code h]
  rfl

/-! ### Values -/

inductive Datum
  | null
  | bool (b : Bool)
  | number (raw : Bytes)
  | string (chars : Bytes)
  | array (items : List Datum)
  | object (members : Bytes → Option Datum)

def Datum.get : Datum → Bytes → Option Datum
  | .object members, name => members name
  | _, _ => none

def Datum.number? : Datum → Option Bytes
  | .number raw => some raw
  | _ => none

def Datum.bool? : Datum → Option Bool
  | .bool b => some b
  | _ => none

def Datum.string? : Datum → Option Bytes
  | .string chars => some chars
  | _ => none

def Datum.getAt (d : Datum) : List Bytes → Option Datum
  | [] => some d
  | name :: path => (d.get name).bind fun e => e.getAt path

def Datum.between : Bracket → List (Option Bytes × Datum) → Datum
  | .curly, items => .object fun name => (items.find? fun e => e.1 = some name).map Prod.snd
  | .square, items => .array (items.map Prod.snd)

/-- The order of members does not matter. -/
theorem Datum.between_swap {e f : Option Bytes × Datum} (h : e.1 ≠ f.1)
    (items : List (Option Bytes × Datum)) :
    Datum.between .curly (e :: f :: items) = Datum.between .curly (f :: e :: items) := by
  refine congrArg Datum.object (funext fun name => ?_)
  by_cases he : e.1 = some name
  · have hf : f.1 ≠ some name := fun hf => h (he.trans hf.symm)
    simp [he, hf]
  · simp [List.find?_cons, he]

def Part.Meaning : Part → Type
  | .value => Datum
  | .items _ => List (Option Bytes × Datum)
  | .rest _ => List (Option Bytes × Datum)

def Label.name : {b : Bracket} → Label b → Option Bytes
  | _, .key raw _ _ => some (unescape raw)
  | _, .element => none

def Phrase.meaning {p : Part} : Phrase p → p.Meaning
  | .true => Datum.bool .true
  | .false => Datum.bool .false
  | .null => Datum.null
  | .number raw => Datum.number raw
  | .string raw => Datum.string (unescape raw)
  | .node b items => Datum.between b items.meaning
  | .nil _ => []
  | .item _ label v rest => (label.name, v.meaning) :: rest.meaning
  | .stop _ => []
  | .more _ items => items.meaning

def Phrase.datum (v : Value) : Datum := v.meaning

/-- No object has two members of one name. -/
def Phrase.Distinct {p : Part} : Phrase p → Prop
  | .node b items =>
      ((Phrase.node b items).pairs.map fun e => e.1.map unescape).Nodup ∧ items.Distinct
  | .item _ _ v rest => v.Distinct ∧ rest.Distinct
  | .more _ items => items.Distinct
  | _ => True

def Phrase.decidableDistinct {p : Part} : (t : Phrase p) → Decidable t.Distinct
  | .node _ items =>
      @instDecidableAnd _ _ (inferInstanceAs (Decidable (List.Nodup _))) items.decidableDistinct
  | .item _ _ v rest => @instDecidableAnd _ _ v.decidableDistinct rest.decidableDistinct
  | .more _ items => items.decidableDistinct
  | .true | .false | .null | .number _ | .string _ | .nil _ | .stop _ =>
      inferInstanceAs (Decidable True)

instance {p : Part} (t : Phrase p) : Decidable t.Distinct := t.decidableDistinct

def Part.Meaning.items : {p : Part} → p.Meaning → List (Option Bytes × Datum)
  | .value, _ => []
  | .items _, es => es
  | .rest _, es => es

theorem Phrase.entries_meaning {p : Part} (t : Phrase p) (i : ℕ) :
    (t.entries i).map (fun e => (e.1.map unescape, e.2.value.datum)) = t.meaning.items := by
  induction t generalizing i with
  | @item b w label v rest ihv ihrest =>
      cases label with
      | key raw w₁ w₂ =>
          simp only [Phrase.entries, List.map_cons, ihrest]
          rfl
      | element =>
          simp only [Phrase.entries, List.map_cons, ihrest]
          rfl
  | more w items ih => exact ih _
  | _ => rfl

/-- A member is found by the name that it means. -/
theorem Phrase.datum_get (v : Value) (name : Bytes) :
    v.datum.get name =
      (v.pairs.find? fun e => e.1.map unescape = some name).map fun e => e.2.datum := by
  cases v with
  | node b items =>
      cases b with
      | curly =>
          have hitems := items.entries_meaning 1
          have hget : (Phrase.node .curly items).datum.get name =
              (items.meaning.items.find? fun e => e.1 = some name).map Prod.snd := rfl
          rw [hget, ← hitems, Phrase.pairs, List.find?_map, List.find?_map, Option.map_map,
            Option.map_map]
          rfl
      | square => rfl
  | _ => rfl

/-- The first member of a name is the one of that name. -/
theorem Phrase.datum_get_of {v : Value} {name : Bytes}
    (h : ∀ e ∈ v.pairs, e.1.map unescape = some name ↔ e.1 = some name) :
    v.datum.get name = (v.get name).map Phrase.datum := by
  rw [v.datum_get, Phrase.get, Option.map_map]
  have hsame : v.pairs.find? (fun e => e.1.map unescape = some name) =
      v.pairs.find? fun e => e.1 = some name := by
    refine List.find?_congr fun e he => ?_
    rw [decide_eq_decide]
    exact h e he
  rw [hsame]
  rfl

theorem find?_of_nodup {α β : Type} [DecidableEq β] {f : α → β} {l : List α} {x : α}
    (h : (l.map f).Nodup) (hx : x ∈ l) : l.find? (fun y => f y = f x) = some x := by
  induction l with
  | nil => cases hx
  | cons y l ih =>
      rw [List.map_cons, List.nodup_cons] at h
      rcases List.mem_cons.mp hx with rfl | hx
      · simp
      · have hne : f y ≠ f x := by
          intro heq
          exact h.1 (heq ▸ List.mem_map_of_mem hx)
        rw [List.find?_cons_of_neg (by simpa using hne), ih h.2 hx]

/-- Every member is the one of its name. -/
theorem Phrase.datum_get_mem {v x : Value} {raw : Bytes} (h : v.Distinct)
    (hx : (some raw, x) ∈ v.pairs) : v.datum.get (unescape raw) = some x.datum := by
  have hnodup : (v.pairs.map fun e => e.1.map unescape).Nodup := by
    cases v with
    | node b items => exact h.1
    | _ => exact List.nodup_nil
  have hfind := find?_of_nodup (f := fun e : Option Bytes × Value => e.1.map unescape) hnodup hx
  rw [v.datum_get]
  rw [Option.map_some] at hfind
  rw [hfind]
  rfl

end Json

end OtiKiosk
