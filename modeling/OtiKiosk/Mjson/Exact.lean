import OtiKiosk.Mjson.Strict

/-!
The number that a numeral stands for, exactly: what `strtod` rounds. Where it is
an integer of less than 54 bits, rounding leaves it as it is.
-/

namespace OtiKiosk

open Ascii Json

/-- The ratio that is written, in hexadecimal or in decimal digits, without a sign. -/
def scanRatio (s : Bytes) : Option ((ℕ × ℕ) × Bytes) :=
  match (scanWord (ascii "0x") s).bind (scanNumeral isHexDigit 16 2 4 112) with
  | some r => some r
  | none => scanNumeral isDigit 10 10 1 101 s

def signedRatio (neg : Bool) (r : ℕ × ℕ) : ℚ := if neg then -(r.1 / r.2) else r.1 / r.2

/-- The number that a numeral stands for; a spelling of infinity or NaN stands for none. -/
def numeralValue (raw : Bytes) : Option ℚ :=
  let (neg, s) := scanSign raw
  (scanRatio s).map fun r => signedRatio neg r.1

example : numeralValue (ascii "-25e-1") = some (-5 / 2) := by decide +kernel
example : numeralValue (ascii "-nan") = none := by decide +kernel

theorem scanNumeral_pos {p : UInt8 → Bool} {base expBase step : ℕ} (hbase : 0 < expBase)
    {mark : UInt8} {s t : Bytes} {r : ℕ × ℕ}
    (h : scanNumeral p base expBase step mark s = some (r, t)) : 0 < r.2 := by
  rw [scanNumeral.eq_def] at h
  cases hdigits : scanDigits p s with
  | none =>
      rw [hdigits] at h
      cases h
  | some digits =>
      rw [hdigits] at h
      obtain ⟨rfl, -⟩ := Prod.mk.inj (Option.some.inj h)
      exact Nat.pow_pos hbase

theorem scanRatio_pos {s t : Bytes} {r : ℕ × ℕ} (h : scanRatio s = some (r, t)) : 0 < r.2 := by
  rw [scanRatio] at h
  cases hhex : (scanWord (ascii "0x") s).bind (scanNumeral isHexDigit 16 2 4 112) with
  | none =>
      rw [hhex] at h
      exact scanNumeral_pos (by decide) h
  | some r' =>
      rw [hhex] at h
      obtain rfl := Option.some.inj h
      obtain ⟨s', -, hnumeral⟩ := Option.bind_eq_some_iff.mp hhex
      exact scanNumeral_pos (by decide) hnumeral

/-- A ratio starts with a digit or a point. -/
theorem scanRatio_head {s t : Bytes} {r : ℕ × ℕ} (h : scanRatio s = some (r, t)) :
    ∃ c s', s = c :: s' ∧ (isDigit c = true ∨ c = dot) := by
  cases s with
  | nil => cases h
  | cons c s' =>
      refine ⟨c, s', rfl, ?_⟩
      by_contra hno
      push Not at hno
      obtain ⟨hdigit, hdot⟩ := hno
      have hword : scanWord (ascii "0x") (c :: s') = none := by
        have hx : ascii "0x" = [48, 120] := by decide
        rw [hx]
        refine scanWord_head ?_
        intro hzero
        refine hdigit ?_
        unfold toLower at hzero
        unfold isDigit
        grind
      have hdigits : scanDigits isDigit (c :: s') = none := by
        have hc : isDigit c = false := by simpa using hdigit
        simp [scanDigits, scanRun, hc, hdot]
      rw [scanRatio, hword, Option.bind_none] at h
      simp only [scanNumeral, hdigits] at h
      cases h

/-- What is written as a ratio is rounded. -/
theorem scanMagnitude_of_ratio {s t : Bytes} {r : ℕ × ℕ} (h : scanRatio s = some (r, t))
    (neg : Bool) : scanMagnitude neg s = some (.ofRatio neg r.1 r.2, t) := by
  obtain ⟨c, s', rfl, hc⟩ := scanRatio_head h
  have hword : ∀ {w : Bytes} {d : UInt8}, isAlpha d = true → toLower d = d →
      scanWord (d :: w) (c :: s') = none := by
    intro w d hd hlower
    refine scanWord_head ?_
    rintro rfl
    rcases hc with hc | rfl
    · rw [toLower_digit hc] at hd
      unfold isDigit at hc
      unfold isAlpha at hd
      grind
    · cases hd
  have hinfinity : scanWord (ascii "infinity") (c :: s') = none := hword rfl rfl
  have hinf : scanWord (ascii "inf") (c :: s') = none := hword rfl rfl
  have hnan : scanNan (c :: s') = none := by
    have h := hword (w := ascii "an") (d := 110) rfl rfl
    have hw : ascii "nan" = 110 :: ascii "an" := by decide
    rw [scanNan, hw, h]
  rw [scanRatio] at h
  rw [scanMagnitude, hinfinity, hinf, hnan]
  cases hhex : (scanWord (ascii "0x") (c :: s')).bind (scanNumeral isHexDigit 16 2 4 112) with
  | none =>
      rw [hhex] at h
      simp only at h ⊢
      rw [h]
      rfl
  | some r' =>
      rw [hhex] at h
      obtain rfl := Option.some.inj h
      rfl

theorem scanSign_head {c : UInt8} (hc : c = minus ∨ isDigit c = true) (s : Bytes) :
    (c :: s).dropWhile isSpace = c :: s := by
  rw [List.dropWhile_cons_of_neg]
  rcases hc with rfl | hc
  · decide
  · unfold isDigit at hc
    unfold isSpace
    grind

/-- A ratio that is an integer has it as its numerator, counted in denominators. -/
theorem signedRatio_int {neg : Bool} {n d : ℕ} (hd : 0 < d) {v : ℤ}
    (h : signedRatio neg (n, d) = v) :
    n = v.natAbs * d ∧ (if neg then -(v.natAbs : ℤ) else v.natAbs) = v := by
  have hd' : (d : ℚ) ≠ 0 := by exact_mod_cast hd.ne'
  have hd'' : (0 : ℤ) < d := by exact_mod_cast hd
  cases neg with
  | false =>
      have hn : (n : ℤ) = v * d := by
        have hratio : (n : ℚ) / d = v := h
        rw [div_eq_iff hd'] at hratio
        exact_mod_cast hratio
      have hv : 0 ≤ v := by
        by_contra hneg
        have := mul_neg_of_neg_of_pos (not_le.mp hneg) hd''
        omega
      have habs : (v.natAbs : ℤ) = v := Int.natAbs_of_nonneg hv
      refine ⟨?_, habs⟩
      rw [← habs] at hn
      exact_mod_cast hn
  | true =>
      have hn : (n : ℤ) = -v * d := by
        have hratio : -((n : ℚ) / d) = v := h
        rw [neg_eq_iff_eq_neg, div_eq_iff hd'] at hratio
        exact_mod_cast hratio
      have hv : v ≤ 0 := by
        by_contra hpos
        have := mul_neg_of_neg_of_pos (neg_neg_of_pos (not_le.mp hpos)) hd''
        omega
      have habs : (v.natAbs : ℤ) = -v := Int.ofNat_natAbs_of_nonpos hv
      refine ⟨?_, ?_⟩
      · rw [← habs] at hn
        exact_mod_cast hn
      · rw [if_pos rfl, habs, neg_neg]

/-- An integer of less than 54 bits is read as it is. -/
theorem strtod_of_value {raw : Bytes} (hraw : mjsonLexicon.number raw) {v : ℤ}
    (hvalue : numeralValue raw = some (v : ℚ)) (hv : v.natAbs < 2 ^ 53) :
    ∃ neg mag, (strtod raw).1 = .finite neg mag ∧ mag.IsWhole ∧ mag.trunc neg = v := by
  obtain ⟨⟨c, s, rfl, hc⟩, -⟩ := hraw
  obtain ⟨neg, s', hsign⟩ : ∃ neg s', scanSign (c :: s) = (neg, s') := ⟨_, _, rfl⟩
  simp only [numeralValue, hsign, Option.map_eq_some_iff] at hvalue
  obtain ⟨⟨⟨n, d⟩, t⟩, hratio, hvalue⟩ := hvalue
  have hd : 0 < d := scanRatio_pos hratio
  -- a multiple of the denominator is rounded without loss
  obtain ⟨hn, hsigned⟩ := signedRatio_int hd hvalue
  rw [hn] at hratio
  obtain ⟨mag, hround, hfloor, hwhole⟩ := Double.ofRatio_mul neg hv hd
  refine ⟨neg, mag, ?_, hwhole, ?_⟩
  · rw [strtod, scanSign_head hc, hsign]
    simp only [scanMagnitude_of_ratio hratio]
    exact hround
  · rw [Magnitude.trunc, hfloor]
    exact hsigned

section

variable {raw : Bytes} (hraw : mjsonLexicon.number raw) {v : ℤ}
  (hvalue : numeralValue raw = some (v : ℚ))

include hraw hvalue

/-- Conversion to `int` leaves an `int` as it is. -/
theorem toInt_of_value (hmin : intMin ≤ v) (hmax : v ≤ intMax) : (strtod raw).1.toInt = v := by
  have hv : v.natAbs < 2 ^ 53 := by
    unfold intMin at hmin
    unfold intMax at hmax
    omega
  obtain ⟨neg, mag, hread, -, htrunc⟩ := strtod_of_value hraw hvalue hv
  rw [hread, Double.toInt, htrunc, clampInt, min_eq_right hmax, max_eq_right hmin]

/-- The comparisons with 0 and a natural are those of the number. -/
theorem compare_of_value {k : ℕ} (hnonneg : 0 ≤ v) (hle : v ≤ k) (hk : k < 2 ^ 53) :
    (strtod raw).1.isNegative = false ∧ (strtod raw).1.exceeds k = false := by
  obtain ⟨neg, mag, hread, hwhole, htrunc⟩ := strtod_of_value hraw hvalue (by omega)
  rw [hread]
  unfold Magnitude.trunc at htrunc
  cases neg with
  | false =>
      have hfloor : mag.floor ≤ k := by
        rw [if_neg (by decide)] at htrunc
        omega
      have hexceeds : ¬k < mag.floor := by omega
      refine ⟨rfl, ?_⟩
      simp [Double.exceeds, hexceeds, hwhole]
  | true =>
      -- a number that is not negative has a minus sign only if it is zero
      have hfloor : mag.floor = 0 := by
        rw [if_pos rfl] at htrunc
        omega
      have hmant : mag.mant = 0 := by
        have hdiv := Nat.div_add_mod (mag.mant * 2 ^ mag.exp.toNat) (2 ^ (-mag.exp).toNat)
        unfold Magnitude.floor at hfloor
        unfold Magnitude.IsWhole at hwhole
        rw [hfloor, hwhole, Nat.mul_zero] at hdiv
        exact (Nat.mul_eq_zero.mp hdiv.symm).resolve_right (Nat.two_pow_pos _).ne'
      refine ⟨?_, rfl⟩
      simp [Double.isNegative, hmant]

end

end OtiKiosk
