import OtiKiosk.Lib.Ascii
import OtiKiosk.Lib.Binary64

/-!
`strtod` of the C library, in the "C" locale: optional blanks, an optional sign,
then a decimal or hexadecimal numeral or a spelling of infinity or NaN, and as
much of it as there is. The tokenizer calls it where a number starts and knows
nothing of the end of the buffer, so what matters besides the value is how far
it reads: never past a byte that cannot be part of a number
(`strtod_append`).
-/

namespace OtiKiosk

open Ascii

/-! ### Scanning

Each scanner returns what it read and the rest of the text. -/

def scanWord : Bytes → Bytes → Option Bytes
  | [], s => some s
  | _ :: _, [] => none
  | w :: ws, c :: s => if toLower c = w then scanWord ws s else none

def scanRun (p : UInt8 → Bool) (s : Bytes) : Bytes × Bytes := (s.takeWhile p, s.dropWhile p)

/-- An optional sign; `true` is minus. -/
def scanSign : Bytes → Bool × Bytes
  | [] => (false, [])
  | c :: s => if c = minus then (true, s) else if c = plus then (false, s) else (false, c :: s)

/-- An exponent introduced by the letter `mark`, when at least one digit follows
it; otherwise nothing is read. -/
def scanExponent (mark : UInt8) : Bytes → ℤ × Bytes
  | [] => (0, [])
  | c :: s =>
      if toLower c = mark then
        let (neg, s₁) := scanSign s
        let (ds, s₂) := scanRun isDigit s₁
        if ds = [] then (0, c :: s)
        else
          let n : ℤ := Nat.ofDigits 10 (ds.reverse.map digitValue)
          (if neg then -n else n, s₂)
      else (0, c :: s)

/-- Digits, then a point and more digits: the digits before the point, those
after it, and the rest. There is at least one digit. -/
def scanDigits (p : UInt8 → Bool) (s : Bytes) : Option (Bytes × Bytes × Bytes) :=
  let (whole, s₁) := scanRun p s
  let (frac, s₂) := match s₁ with
    | [] => ([], [])
    | c :: s' => if c = dot then scanRun p s' else ([], c :: s')
  if whole = [] ∧ frac = [] then none else some (whole, frac, s₂)

/-- The ratio `m * b ^ e`, as numerator and denominator. -/
def scaled (m b : ℕ) (e : ℤ) : ℕ × ℕ := (m * b ^ e.toNat, b ^ (-e).toNat)

/-- A numeral in base `base`, its exponent counting powers of `expBase`; each
digit after the point lowers the exponent by `step`. -/
def scanNumeral (p : UInt8 → Bool) (base expBase step : ℕ) (mark : UInt8) (s : Bytes) :
    Option ((ℕ × ℕ) × Bytes) :=
  match scanDigits p s with
  | none => none
  | some (whole, frac, s₁) =>
      let (e, s₂) := scanExponent mark s₁
      let m := Nat.ofDigits base ((whole ++ frac).reverse.map digitValue)
      some (scaled m expBase (e - step * frac.length), s₂)

/-- `nan`, with its optional parenthesized characters. -/
def scanNan (s : Bytes) : Option Bytes :=
  match scanWord (ascii "nan") s with
  | none => none
  | some s₁ =>
      match s₁ with
      | [] => some []
      | c :: s₂ =>
          if c = lparen then
            match (scanRun (fun c => isDigit c || isAlpha c || c == underscore) s₂).2 with
            | [] => some s₁
            | c' :: s₃ => if c' = rparen then some s₃ else some s₁
          else some s₁

def scanMagnitude (neg : Bool) (s : Bytes) : Option (Double × Bytes) :=
  match scanWord (ascii "infinity") s with
  | some s' => some (.inf neg, s')
  | none =>
      match scanWord (ascii "inf") s with
      | some s' => some (.inf neg, s')
      | none =>
          match scanNan s with
          | some s' => some (.nan, s')
          | none =>
              match (scanWord (ascii "0x") s).bind (scanNumeral isHexDigit 16 2 4 112) with
              | some (r, s') => some (.ofRatio neg r.1 r.2, s')
              | none =>
                  (scanNumeral isDigit 10 10 1 101 s).map fun (r, s') =>
                    (.ofRatio neg r.1 r.2, s')

/-- `strtod`: the value, and the number of bytes up to where `endptr` is left.
With no number to read the value is zero and `endptr` stays at the start. -/
def strtod (s : Bytes) : Double × ℕ :=
  let (neg, s₁) := scanSign (s.dropWhile isSpace)
  match scanMagnitude neg s₁ with
  | none => (.finite false .zero, 0)
  | some (d, s₂) => (d, s.length - s₂.length)

example : (strtod (ascii "-25e-1]")).1.toInt = -2 := by decide +kernel
example : (strtod (ascii "0x1F,")) = strtod (ascii "31e0") := by decide +kernel

/-! ### The end of a number -/

def isNumberByte (c : UInt8) : Bool :=
  isDigit c || isAlpha c || [plus, minus, dot, lparen, rparen, underscore].contains c

/-- A byte at which every scan stops. -/
structure Stops (d : UInt8) : Prop where
  notDigit : isDigit d = false
  notAlpha : isAlpha d = false
  notSign : d ≠ minus ∧ d ≠ plus
  notPoint : d ≠ dot
  notParen : d ≠ lparen ∧ d ≠ rparen
  notUnderscore : d ≠ underscore

theorem stops_iff {d : UInt8} : Stops d ↔ isNumberByte d = false := by
  constructor
  · rintro ⟨h1, h2, h3, h4, h5, h6⟩
    simp_all [isNumberByte]
  · intro h
    simp only [isNumberByte, Bool.or_eq_false_iff] at h
    refine ⟨h.1.1, h.1.2, ?_, ?_, ?_, ?_⟩ <;> simp_all

section

variable {d : UInt8}

theorem Stops.notHex (hd : Stops d) : isHexDigit d = false := by
  have hdigit := hd.notDigit
  have halpha := hd.notAlpha
  unfold isHexDigit
  unfold isAlpha at halpha
  grind

theorem Stops.toLower (hd : Stops d) : Ascii.toLower d = d := by
  have h := hd.notAlpha
  simp only [isAlpha, Bool.or_eq_false_iff] at h
  simp [Ascii.toLower, h.1]

theorem Stops.ne_letter (hd : Stops d) {c : UInt8} (hc : isAlpha c = true) : d ≠ c := by
  rintro rfl
  simp [hd.notAlpha] at hc

theorem Stops.notMem_word (hd : Stops d) {w : Bytes}
    (hw : ∀ c ∈ w, isAlpha c = true ∨ isDigit c = true) : d ∉ w := by
  intro hmem
  rcases hw d hmem with h | h
  · simp [hd.notAlpha] at h
  · simp [hd.notDigit] at h

theorem scanRun_append (t : Bytes) {p : UInt8 → Bool} (hp : p d = false) (s : Bytes) :
    scanRun p (s ++ d :: t) = ((scanRun p s).1, (scanRun p s).2 ++ d :: t) := by
  induction s with
  | nil => simp [scanRun, hp]
  | cons c s ih =>
      simp only [scanRun, Prod.mk.injEq] at ih
      cases h : p c <;> simp [scanRun, h, ih]

variable (hd : Stops d) (t : Bytes)

include hd

theorem scanWord_append {w : Bytes} (hw : d ∉ w) (s : Bytes) :
    scanWord w (s ++ d :: t) = (scanWord w s).map (· ++ d :: t) := by
  induction w generalizing s with
  | nil => cases s <;> simp [scanWord]
  | cons a w ih =>
      simp only [List.mem_cons, not_or] at hw
      cases s with
      | nil => simp [scanWord, hd.toLower, hw.1]
      | cons c s =>
          simp only [List.cons_append, scanWord]
          split
          · exact ih hw.2 s
          · rfl

theorem scanSign_append (s : Bytes) :
    scanSign (s ++ d :: t) = ((scanSign s).1, (scanSign s).2 ++ d :: t) := by
  cases s with
  | nil => simp only [List.nil_append, scanSign, hd.notSign.1, hd.notSign.2, if_false]
  | cons c s =>
      simp only [List.cons_append, scanSign]
      split_ifs <;> rfl

theorem scanExponent_append {mark : UInt8} (hmark : d ≠ mark) (s : Bytes) :
    scanExponent mark (s ++ d :: t) =
      ((scanExponent mark s).1, (scanExponent mark s).2 ++ d :: t) := by
  cases s with
  | nil => simp only [List.nil_append, scanExponent, hd.toLower, hmark, if_false]
  | cons c s =>
      simp only [List.cons_append, scanExponent, scanSign_append hd,
        scanRun_append t hd.notDigit]
      split_ifs <;> rfl

theorem scanDigits_append {p : UInt8 → Bool} (hp : p d = false) (s : Bytes) :
    scanDigits p (s ++ d :: t) =
      (scanDigits p s).map fun (whole, frac, rest) => (whole, frac, rest ++ d :: t) := by
  simp only [scanDigits, scanRun_append t hp]
  cases (scanRun p s).2 with
  | nil =>
      simp only [List.nil_append, hd.notPoint, if_false]
      split_ifs <;> rfl
  | cons c s' =>
      simp only [List.cons_append, scanRun_append t hp]
      split_ifs <;> rfl

theorem scanNumeral_append {p : UInt8 → Bool} (hp : p d = false) {mark : UInt8}
    (hmark : d ≠ mark) (base expBase step : ℕ) (s : Bytes) :
    scanNumeral p base expBase step mark (s ++ d :: t) =
      (scanNumeral p base expBase step mark s).map fun (r, rest) => (r, rest ++ d :: t) := by
  simp only [scanNumeral, scanDigits_append hd t hp]
  cases scanDigits p s with
  | none => rfl
  | some r => simp only [Option.map_some, scanExponent_append hd t hmark]

theorem scanNan_append (s : Bytes) :
    scanNan (s ++ d :: t) = (scanNan s).map (· ++ d :: t) := by
  have hw : d ∉ ascii "nan" := hd.notMem_word (by decide)
  have hp : (fun c => isDigit c || isAlpha c || c == underscore) d = false := by
    simp [hd.notDigit, hd.notAlpha, hd.notUnderscore]
  simp only [scanNan, scanWord_append hd t hw]
  cases scanWord (ascii "nan") s with
  | none => rfl
  | some s₁ =>
      cases s₁ with
      | nil => simp [hd.notParen.1]
      | cons c s₂ =>
          simp only [Option.map_some, List.cons_append]
          rw [scanRun_append t hp]
          split_ifs
          · cases (scanRun _ s₂).2 with
            | nil => simp [hd.notParen.2]
            | cons c' s₃ =>
                simp only [List.cons_append]
                split_ifs <;> rfl
          · rfl

theorem scanMagnitude_append (neg : Bool) (s : Bytes) :
    scanMagnitude neg (s ++ d :: t) =
      (scanMagnitude neg s).map fun (v, rest) => (v, rest ++ d :: t) := by
  have hinfinity : d ∉ ascii "infinity" := hd.notMem_word (by decide)
  have hinf : d ∉ ascii "inf" := hd.notMem_word (by decide)
  have hx : d ∉ ascii "0x" := hd.notMem_word (by decide)
  have hp : d ≠ 112 := hd.ne_letter (by decide)
  have he : d ≠ 101 := hd.ne_letter (by decide)
  simp only [scanMagnitude, scanWord_append hd t hinfinity, scanWord_append hd t hinf,
    scanWord_append hd t hx, scanNan_append hd, scanNumeral_append hd t hd.notDigit he]
  cases scanWord (ascii "infinity") s with
  | some s' => rfl
  | none =>
    cases scanWord (ascii "inf") s with
    | some s' => rfl
    | none =>
      cases scanNan s with
      | some s' => rfl
      | none =>
        cases hword : scanWord (ascii "0x") s with
        | none => simp [Function.comp_def]
        | some s' =>
          simp only [Option.map_none, Option.map_some, Option.bind_some,
            scanNumeral_append hd t hd.notHex hp]
          cases scanNumeral isHexDigit 16 2 4 112 s' with
          | some r => rfl
          | none => simp [Function.comp_def]

/-- **How far `strtod` reads.** It stops before the first byte that cannot be
part of a number, and nothing from there on has an influence. -/
theorem strtod_append {s : Bytes} (hs : ∃ c s', s = c :: s' ∧ isSpace c = false) :
    strtod (s ++ d :: t) = strtod s := by
  obtain ⟨c, s', rfl, hc⟩ := hs
  simp only [strtod, List.cons_append, List.dropWhile_cons, hc, Bool.false_eq_true, if_false]
  rw [← List.cons_append, scanSign_append hd, scanMagnitude_append hd]
  cases scanMagnitude _ (scanSign (c :: s')).2 with
  | none => rfl
  | some r =>
      simp only [Option.map_some, List.length_append, List.length_cons, Prod.mk.injEq, true_and]
      omega

end

theorem strtod_length_le (s : Bytes) : (strtod s).2 ≤ s.length := by
  simp only [strtod]
  cases scanMagnitude _ _ with
  | none => exact Nat.zero_le _
  | some r => exact Nat.sub_le _ _

end OtiKiosk
