import OtiKiosk.Lib.Members
import OtiKiosk.Printer.Base64
import OtiKiosk.Printer.Strings

/-!
Formats of `mjson_printf` that print JSON: a conversion for each value, and literal
text around them. A format is put together with its arguments, its value and the
proof that it prints the text of the value, so that formats of objects are built from
those of their members.
-/

namespace OtiKiosk

open Ascii Json

/-! ### The loop -/

theorem mjsonVprintfLoop_skip (pre fmt : Bytes) (args : List PrintArg) :
    mjsonVprintfLoop pre.length (pre ++ fmt) args = mjsonVprintf fmt args := by
  induction pre with
  | nil => rfl
  | cons c pre ih =>
      rw [List.length_cons, List.cons_append, mjsonVprintfLoop]
      exact ih

/-- A conversion is printed, and the format goes on behind it. -/
theorem mjsonVprintf_conversion {conv fmt : Bytes} {args args' : List PrintArg}
    {pieces : List Bytes}
    (h : conversion (conv ++ fmt) args = some (pieces, args', conv.length)) :
    mjsonVprintf (percent :: conv ++ fmt) args = (mjsonVprintf fmt args').map (pieces ++ ·) := by
  rw [mjsonVprintf, List.cons_append, mjsonVprintfLoop, if_pos rfl, h]
  simp only [mjsonVprintfLoop_skip]

theorem mjsonVprintf_byte {c : UInt8} (hc : c ≠ percent) (fmt : Bytes) (args : List PrintArg) :
    mjsonVprintf (c :: fmt) args = (mjsonVprintf fmt args).map ([c] :: ·) := by
  rw [mjsonVprintf, mjsonVprintfLoop, if_neg hc]
  rfl

/-- The format prints the text, whatever stands behind it. -/
def Prints (fmt : Bytes) (args : List PrintArg) (text : Bytes) : Prop :=
  ∃ pieces : List Bytes, pieces.flatten = text ∧ ∀ fmt' args',
    mjsonVprintf (fmt ++ fmt') (args ++ args') = (mjsonVprintf fmt' args').map (pieces ++ ·)

theorem Prints.nil : Prints [] [] [] := by
  refine ⟨[], rfl, fun fmt' args' => ?_⟩
  simp only [List.nil_append, Option.map_id']

theorem Prints.append {fmt fmt' : Bytes} {args args' : List PrintArg} {text text' : Bytes}
    (h : Prints fmt args text) (h' : Prints fmt' args' text') :
    Prints (fmt ++ fmt') (args ++ args') (text ++ text') := by
  obtain ⟨pieces, rfl, h⟩ := h
  obtain ⟨pieces', rfl, h'⟩ := h'
  refine ⟨pieces ++ pieces', List.flatten_append, fun fmt'' args'' => ?_⟩
  rw [List.append_assoc, List.append_assoc, h, h', Option.map_map]
  simp only [Function.comp_def, List.append_assoc]

theorem Prints.literal {text : Bytes} (h : percent ∉ text) : Prints text [] text := by
  induction text with
  | nil => exact .nil
  | cons c text ih =>
      rw [List.mem_cons, not_or] at h
      have hbyte : Prints [c] [] [c] :=
        ⟨[[c]], rfl, fun fmt' args' => mjsonVprintf_byte (Ne.symm h.1) fmt' args'⟩
      exact hbyte.append (ih h.2)

theorem Prints.conversion (conv : Bytes) (arg : PrintArg) (pieces : List Bytes)
    (h : ∀ fmt args, conversion (conv ++ fmt) (arg :: args) = some (pieces, args, conv.length)) :
    Prints (percent :: conv) [arg] pieces.flatten :=
  ⟨pieces, rfl, fun fmt' args' => mjsonVprintf_conversion (h fmt' args')⟩

theorem Prints.vprintf {fmt : Bytes} {args : List PrintArg} {text : Bytes}
    (h : Prints fmt args text) : ∃ pieces, mjsonVprintf fmt args = some pieces ∧
      pieces.flatten = text := by
  obtain ⟨pieces, rfl, h⟩ := h
  have hall := h [] []
  rw [List.append_nil, List.append_nil] at hall
  exact ⟨pieces, by rw [hall]; simp [mjsonVprintf, mjsonVprintfLoop], rfl⟩

/-! ### Values -/

inductive Printed
  | text (s : CString)
  | mem (s : Bytes)
  | int (v : BitVec 32) (isSigned : Bool)
  | long (v : BitVec 64) (isSigned : Bool)
  | bool (v : BitVec 32)
  | base64 (s : Bytes)

/-- The integer that the bits stand for. -/
def integerValue {w : ℕ} (v : BitVec w) (isSigned : Bool) : ℤ :=
  if isSigned then v.toInt else v.toNat

theorem intText_natCast (n : ℕ) : intText n = natText n := by
  rw [intText, if_neg (by omega), Int.natAbs_natCast]

theorem integerText_eq {w : ℕ} (v : BitVec w) (isSigned : Bool) :
    integerText v isSigned = intText (integerValue v isSigned) := by
  cases isSigned with
  | true => rfl
  | false => exact (intText_natCast _).symm

theorem natText_length_le_iff {k : ℕ} (hk : 0 < k) (n : ℕ) :
    (natText n).length ≤ k ↔ n < 10 ^ k := by
  rw [natText]
  split_ifs with h
  · subst h
    exact ⟨fun _ => Nat.pow_pos (by decide), fun _ => hk⟩
  · rw [List.length_map, List.length_reverse, Nat.digits_length_le_iff (by decide)]

theorem intText_length_le_iff {k : ℕ} (hk : 0 < k) (v : ℤ) :
    (intText v).length ≤ k + 1 ↔ -(10 ^ k : ℕ) < v ∧ v < (10 ^ (k + 1) : ℕ) := by
  have hmono : 10 ^ k ≤ 10 ^ (k + 1) := Nat.pow_le_pow_right (by decide) (Nat.le_succ k)
  rw [intText]
  split_ifs with hv
  · rw [List.length_cons, Nat.add_le_add_iff_right, natText_length_le_iff hk]
    omega
  · rw [natText_length_le_iff (Nat.succ_pos k)]
    have hpos : 0 < 10 ^ k := Nat.pow_pos (by decide)
    omega

theorem printedFrom_of_lt {size : ℕ} {text : Bytes} (h : text.length < size) :
    printedFrom size text = some text := by
  have hall : text.take (size - 1) = text := List.take_of_length_le (by omega)
  rw [printedFrom, if_pos h.le, hall, List.take_left]

theorem printedFrom_of_eq {size : ℕ} {text : Bytes} (h : text.length = size + 1) :
    printedFrom (size + 1) text = some (text.take size ++ [nul]) := by
  rw [printedFrom, if_pos h.le, Nat.add_sub_cancel, List.take_of_length_le]
  rw [List.length_append, List.length_take, List.length_singleton]
  omega

theorem integerValue_bounds {w : ℕ} (v : BitVec w) (isSigned : Bool) :
    -(2 ^ w : ℕ) ≤ 2 * integerValue v isSigned ∧ integerValue v isSigned < (2 ^ w : ℕ) := by
  have hlt := v.isLt
  cases isSigned with
  | true =>
      have hle := v.two_mul_toInt_lt
      have hge := v.le_two_mul_toInt
      simp only [integerValue, if_true]
      push_cast
      omega
  | false =>
      simp only [integerValue, Bool.false_eq_true, if_false]
      omega

/-- An `int` always fits. -/
theorem mjsonPrintInt_eq (v : BitVec 32) (isSigned : Bool) :
    mjsonPrintInt v isSigned = some (integerText v isSigned) := by
  have hbounds := integerValue_bounds v isSigned
  refine printedFrom_of_lt (Nat.lt_succ_of_le ?_)
  rw [integerText_eq, intText_length_le_iff (by decide)]
  omega

/-- The values of a `long` whose text fits into the array with its terminator. -/
def LongFits (v : BitVec 64) (isSigned : Bool) : Prop :=
  -(10 ^ 18 : ℕ) < integerValue v isSigned ∧ integerValue v isSigned < (10 ^ 19 : ℕ)

instance (v : BitVec 64) (isSigned : Bool) : Decidable (LongFits v isSigned) :=
  inferInstanceAs (Decidable (_ ∧ _))

/-- A `long` is printed as it is if its text has at most 19 characters; the last character of a
longer one is replaced by a NUL. -/
theorem mjsonPrintLong_eq (v : BitVec 64) (isSigned : Bool) :
    mjsonPrintLong v isSigned = some (if LongFits v isSigned then integerText v isSigned
      else (integerText v isSigned).take 19 ++ [nul]) := by
  have hfits := intText_length_le_iff (k := 18) (by decide) (integerValue v isSigned)
  rw [← integerText_eq] at hfits
  rw [mjsonPrintLong]
  split_ifs with h
  · exact printedFrom_of_lt (Nat.lt_succ_of_le (hfits.mpr h))
  · have hbounds := integerValue_bounds v isSigned
    have hle : (integerText v isSigned).length ≤ 19 + 1 := by
      rw [integerText_eq, intText_length_le_iff (by decide)]
      omega
    have hgt : ¬(integerText v isSigned).length ≤ 18 + 1 := fun h' => h (hfits.mp h')
    exact printedFrom_of_eq (by omega)

namespace Printed

/-- The conversion, behind the percent sign. -/
def conv : Printed → Bytes
  | .text _ => [letterQ]
  | .mem _ => [dot, asterisk, letterQ]
  | .int _ true => [letterD]
  | .int _ false => [letterU]
  | .long _ true => [letterL, letterD]
  | .long _ false => [letterL, letterU]
  | .bool _ => [letterB]
  | .base64 _ => [letterV]

def arg : Printed → PrintArg
  | .text s => .str s
  | .mem s | .base64 s => .mem s
  | .int v _ | .bool v => .int v
  | .long v _ => .long v

def value : Printed → Value
  | .text s => .string (escapeText s.bytes)
  | .mem s => .string (escapeText s)
  | .int v isSigned => .number (integerText v isSigned)
  | .long v isSigned => .number (integerText v isSigned)
  | .bool v => if v ≠ 0 then .true else .false
  | .base64 s => .string (base64Quads s).flatten

/-- What is printed is a value: there is no NUL in a string, and a number is not cut off. -/
def Sound : Printed → Prop
  | .mem s => nul ∉ s
  | .long v isSigned => LongFits v isSigned
  | _ => True

instance : DecidablePred Sound
  | .mem s => inferInstanceAs (Decidable (nul ∉ s))
  | .long v isSigned => inferInstanceAs (Decidable (LongFits v isSigned))
  | .text _ | .int _ _ | .bool _ | .base64 _ => inferInstanceAs (Decidable True)

theorem prints {p : Printed} (h : p.Sound) : Prints (percent :: p.conv) [p.arg] p.value.text := by
  cases p with
  | text s =>
      have hprint := Prints.conversion [letterQ] (.str s)
        (mjsonPrintStr s.bytes) fun fmt args => by simp +decide [conversion]
      rw [mjsonPrintStr_flatten] at hprint
      exact hprint
  | mem s =>
      have hprint := Prints.conversion [dot, asterisk, letterQ] (.mem s)
        (mjsonPrintStr s) fun fmt args => by simp +decide [conversion]
      rw [mjsonPrintStr_flatten] at hprint
      exact hprint
  | int v isSigned =>
      have hint := mjsonPrintInt_eq v
      cases isSigned with
      | true =>
          have hprint := Prints.conversion [letterD] (.int v)
            [integerText v true] fun fmt args => by simp +decide [conversion, hint]
          rw [List.flatten_singleton] at hprint
          exact hprint
      | false =>
          have hprint := Prints.conversion [letterU] (.int v)
            [integerText v false] fun fmt args => by simp +decide [conversion, hint]
          rw [List.flatten_singleton] at hprint
          exact hprint
  | long v isSigned =>
      have hfits : LongFits v isSigned := h
      have hlong := mjsonPrintLong_eq v isSigned
      rw [if_pos hfits] at hlong
      cases isSigned with
      | true =>
          have hprint := Prints.conversion [letterL, letterD] (.long v)
            [integerText v true] fun fmt args => by simp +decide [conversion, hlong]
          rw [List.flatten_singleton] at hprint
          exact hprint
      | false =>
          have hprint := Prints.conversion [letterL, letterU] (.long v)
            [integerText v false] fun fmt args => by simp +decide [conversion, hlong]
          rw [List.flatten_singleton] at hprint
          exact hprint
  | bool v =>
      have hprint := Prints.conversion [letterB] (.int v)
        [if v ≠ 0 then ascii "true" else ascii "false"] fun fmt args => by
          simp +decide [conversion]
      rw [List.flatten_singleton] at hprint
      simp only [value]
      split_ifs at hprint ⊢ <;> exact hprint
  | base64 s =>
      have hprint := Prints.conversion [letterV] (.mem s)
        (mjsonPrintB64 s) fun fmt args => by simp +decide [conversion]
      rw [mjsonPrintB64_flatten] at hprint
      exact hprint

theorem value_depth (p : Printed) : p.value.depth = 0 := by
  cases p with
  | bool v =>
      simp only [value]
      split_ifs <;> rfl
  | _ => rfl

theorem value_wf {p : Printed} (h : p.Sound) : p.value.WF mjsonLexicon := by
  cases p with
  | text s => exact (lexicon_escapeText_iff _).mpr s.noNul
  | mem s => exact (lexicon_escapeText_iff _).mpr h
  | int v isSigned =>
      have hnumber := (intNumeral (integerValue v isSigned)).lexicon
      rw [← intText_eq, ← integerText_eq] at hnumber
      exact hnumber
  | long v isSigned =>
      have hnumber := (intNumeral (integerValue v isSigned)).lexicon
      rw [← intText_eq, ← integerText_eq] at hnumber
      exact hnumber
  | bool v =>
      simp only [value]
      split_ifs <;> trivial
  | base64 s => exact lexicon_chars (base64Quads_plain s).chars

end Printed

/-! ### Formats of objects -/

structure ValueFormat where
  fmt : Bytes
  args : List PrintArg
  value : Value
  prints : Prints fmt args value.text

/-- A member, the name of which stands in the format as it is. -/
structure MemberFormat where
  name : Bytes
  noPercent : percent ∉ name
  format : ValueFormat

def Printed.format (p : Printed) (h : p.Sound) : ValueFormat :=
  ⟨percent :: p.conv, [p.arg], p.value, p.prints h⟩

namespace MemberFormat

variable (m : MemberFormat) (ms : List MemberFormat)

def fmt : Bytes := quoted m.name ++ colon :: m.format.fmt

def member : Bytes × Value := (m.name, m.format.value)

theorem prints : Prints m.fmt m.format.args (quoted m.name ++ colon :: m.format.value.text) := by
  have hname : Prints (quoted m.name ++ [colon]) [] (quoted m.name ++ [colon]) := by
    refine .literal ?_
    simp only [quoted, List.mem_append, List.mem_cons, List.not_mem_nil, or_false, not_or]
    exact ⟨⟨⟨by decide, m.noPercent⟩, by decide⟩, by decide⟩
  have hboth := hname.append m.format.prints
  rw [List.append_assoc, List.append_assoc] at hboth
  exact hboth

theorem prints_joined : Prints (ms.flatMap fun m => comma :: m.fmt) (ms.flatMap (·.format.args))
    (joinedMembers (ms.map fun m => (m.name, m.format.value.text))) := by
  induction ms with
  | nil => exact .nil
  | cons m ms ih =>
      have hcomma : Prints [comma] [] [comma] := .literal (by decide)
      have hall := (hcomma.append m.prints).append ih
      exact hall

end MemberFormat

def objectFmt : List MemberFormat → Bytes
  | [] => [lbrace, rbrace]
  | m :: ms => lbrace :: (m.fmt ++ ms.flatMap fun m => comma :: m.fmt) ++ [rbrace]

def objectValue (ms : List MemberFormat) : Value := object (ms.map MemberFormat.member)

theorem objectFmt_prints (ms : List MemberFormat) :
    Prints (objectFmt ms) (ms.flatMap (·.format.args)) (objectValue ms).text := by
  cases ms with
  | nil => exact .literal (by decide)
  | cons m ms =>
      have hopen : Prints [lbrace] [] [lbrace] := .literal (by decide)
      have hclose : Prints [rbrace] [] [rbrace] := .literal (by decide)
      have hall := (hopen.append (m.prints.append (MemberFormat.prints_joined ms))).append hclose
      have htext : (objectValue (m :: ms)).text = [lbrace] ++ (quoted m.name ++ colon ::
          m.format.value.text ++ joinedMembers (ms.map fun m => (m.name, m.format.value.text))) ++
          [rbrace] := by
        rw [objectValue, List.map_cons, MemberFormat.member, object_text, List.map_map]
        rfl
      rw [htext]
      rw [List.append_nil] at hall
      exact hall

def objectFormat (ms : List MemberFormat) : ValueFormat :=
  ⟨objectFmt ms, ms.flatMap (·.format.args), objectValue ms, objectFmt_prints ms⟩

end OtiKiosk
