import Mathlib

/-!
The binary64 numbers, which C calls `double`: their values, rounding an exact
ratio of two naturals to the nearest of them (ties to even), and the conversion
to a 32-bit integer. Only what reading a number and converting it needs is
here; there is no arithmetic on them.
-/

namespace OtiKiosk

/-- The magnitude `mant * 2 ^ exp` of a finite binary64 number, in the one form
the format has for it. -/
structure Magnitude where
  mant : ℕ
  exp : ℤ
  mant_lt : mant < 2 ^ 53
  exp_ge : -1074 ≤ exp
  exp_le : exp ≤ 971
  normal : 2 ^ 52 ≤ mant ∨ exp = -1074
  deriving DecidableEq

inductive Double
  | nan
  | inf (neg : Bool)
  | finite (neg : Bool) (mag : Magnitude)
  deriving DecidableEq

/-! ### Rounding a ratio -/

/-- The quotient rounded to the nearest natural, ties to even. -/
def roundDiv (n d : ℕ) : ℕ :=
  if 2 * (n % d) < d then n / d
  else if d < 2 * (n % d) then n / d + 1
  else n / d + (n / d) % 2

theorem le_roundDiv {n d a : ℕ} (hd : 0 < d) (h : a * d ≤ n) : a ≤ roundDiv n d := by
  have hq : a ≤ n / d := (Nat.le_div_iff_mul_le hd).mpr h
  unfold roundDiv
  split_ifs <;> omega

theorem roundDiv_mul {a d : ℕ} (hd : 0 < d) : roundDiv (a * d) d = a := by
  simp [roundDiv, hd]

/-- Numerator and denominator of `n / d` counted in units of `2 ^ e`. -/
def inUnits (n d : ℕ) (e : ℤ) : ℕ × ℕ :=
  (n * 2 ^ (-e).toNat, d * 2 ^ e.toNat)

theorem inUnits_pos {n d : ℕ} (hd : 0 < d) (e : ℤ) : 0 < (inUnits n d e).2 :=
  Nat.mul_pos hd (Nat.two_pow_pos _)

/-- Comparing in units of `2 ^ e` compares the ratio itself. -/
theorem inUnits_lt_iff {n d : ℕ} (hd : 0 < d) (e : ℤ) (k : ℕ) :
    (inUnits n d e).1 < (inUnits n d e).2 * 2 ^ k ↔ (n : ℚ) / d < 2 ^ (e + k) := by
  have hd' : (0 : ℚ) < d := by exact_mod_cast hd
  have hsplit : (2 : ℚ) ^ (e + k) = 2 ^ e.toNat * 2 ^ k / 2 ^ (-e).toNat := by
    rw [eq_div_iff (by positivity), ← zpow_natCast, ← zpow_natCast, ← zpow_natCast,
      ← zpow_add₀ two_ne_zero, ← zpow_add₀ two_ne_zero]
    congr 1
    omega
  rw [hsplit, div_lt_div_iff₀ hd' (by positivity), mul_comm _ (d : ℚ), ← mul_assoc]
  simp only [inUnits]
  exact_mod_cast Iff.rfl

/-- The unit in which the integer part of `n / d` has 53 bits. -/
def leadUnit (n d : ℕ) : ℤ :=
  let e : ℤ := Nat.log2 n - Nat.log2 d - 52
  if (inUnits n d e).1 < (inUnits n d e).2 * 2 ^ 52 then e - 1 else e

theorem ratio_log_bound {n d : ℕ} (hn : 0 < n) (hd : 0 < d) :
    (2 : ℚ) ^ ((Nat.log2 n : ℤ) - Nat.log2 d - 1) < (n : ℚ) / d := by
  have hlow : 2 ^ Nat.log2 n ≤ n := Nat.log2_self_le hn.ne'
  have hhigh : d < 2 ^ (Nat.log2 d + 1) := Nat.lt_log2_self
  have hd' : (0 : ℚ) < d := by exact_mod_cast hd
  rw [lt_div_iff₀ hd']
  calc (2 : ℚ) ^ ((Nat.log2 n : ℤ) - Nat.log2 d - 1) * d
      < 2 ^ ((Nat.log2 n : ℤ) - Nat.log2 d - 1) * 2 ^ (Nat.log2 d + 1) := by
        apply mul_lt_mul_of_pos_left _ (zpow_pos two_pos _)
        exact_mod_cast hhigh
    _ = 2 ^ Nat.log2 n := by
        rw [← zpow_natCast, ← zpow_natCast, ← zpow_add₀ two_ne_zero]
        congr 1
        push_cast
        ring
    _ ≤ n := by exact_mod_cast hlow

theorem ratio_log_bound' {n d : ℕ} (hd : 0 < d) :
    (n : ℚ) / d < 2 ^ ((Nat.log2 n : ℤ) - Nat.log2 d + 1) := by
  have hhigh : n < 2 ^ (Nat.log2 n + 1) := Nat.lt_log2_self
  have hlow : 2 ^ Nat.log2 d ≤ d := Nat.log2_self_le hd.ne'
  have hd' : (0 : ℚ) < d := by exact_mod_cast hd
  rw [div_lt_iff₀ hd']
  calc (n : ℚ) < 2 ^ (Nat.log2 n + 1) := by exact_mod_cast hhigh
    _ = 2 ^ ((Nat.log2 n : ℤ) - Nat.log2 d + 1) * 2 ^ Nat.log2 d := by
        rw [← zpow_natCast, ← zpow_natCast, ← zpow_add₀ two_ne_zero]
        congr 1
        push_cast
        ring
    _ ≤ 2 ^ ((Nat.log2 n : ℤ) - Nat.log2 d + 1) * d := by
        apply mul_le_mul_of_nonneg_left _ (zpow_nonneg zero_le_two _)
        exact_mod_cast hlow

theorem le_ratio_leadUnit {n d : ℕ} (hn : 0 < n) (hd : 0 < d) :
    (2 : ℚ) ^ (leadUnit n d + 52) ≤ (n : ℚ) / d := by
  unfold leadUnit
  simp only
  split_ifs with hlt
  · rw [show (Nat.log2 n : ℤ) - Nat.log2 d - 52 - 1 + 52 = Nat.log2 n - Nat.log2 d - 1 by ring]
    exact (ratio_log_bound hn hd).le
  · rw [inUnits_lt_iff hd] at hlt
    exact_mod_cast not_lt.mp hlt

theorem ratio_lt_leadUnit {n d : ℕ} (hd : 0 < d) :
    (n : ℚ) / d < 2 ^ (leadUnit n d + 53) := by
  unfold leadUnit
  simp only
  split_ifs with hlt
  · rw [inUnits_lt_iff hd] at hlt
    rw [show (Nat.log2 n : ℤ) - Nat.log2 d - 52 - 1 + 53 = Nat.log2 n - Nat.log2 d - 52 + 52 by ring]
    exact_mod_cast hlt
  · rw [show (Nat.log2 n : ℤ) - Nat.log2 d - 52 + 53 = Nat.log2 n - Nat.log2 d + 1 by ring]
    exact ratio_log_bound' hd

/-- The unit of the binary64 number nearest to `n / d`: there is none below
`2 ^ (-1074)`. -/
def unitExponent (n d : ℕ) : ℤ := max (-1074) (leadUnit n d)

theorem le_unitExponent (n d : ℕ) : -1074 ≤ unitExponent n d := le_max_left _ _

/-- Above the least unit, the rounded mantissa has its leading bit. -/
theorem le_roundDiv_unitExponent {n d : ℕ} (hn : 0 < n) (hd : 0 < d) :
    2 ^ 52 ≤ roundDiv (inUnits n d (unitExponent n d)).1 (inUnits n d (unitExponent n d)).2 ∨
      unitExponent n d = -1074 := by
  rcases le_total (leadUnit n d) (-1074) with hle | hge
  · exact .inr (max_eq_left hle)
  · left
    rw [show unitExponent n d = leadUnit n d from max_eq_right hge]
    apply le_roundDiv (inUnits_pos hd _)
    have h := mt (inUnits_lt_iff (n := n) hd (leadUnit n d) 52).mp
      (not_lt.mpr (by exact_mod_cast le_ratio_leadUnit hn hd))
    rw [mul_comm]
    exact not_lt.mp h

/-- In its unit, the ratio is below 53 bits. -/
theorem inUnits_unitExponent_lt {n d : ℕ} (hd : 0 < d) :
    (inUnits n d (unitExponent n d)).1 < (inUnits n d (unitExponent n d)).2 * 2 ^ 53 := by
  rw [inUnits_lt_iff hd]
  refine (ratio_lt_leadUnit hd).trans_le ?_
  apply zpow_le_zpow_right₀ one_le_two
  have := le_max_right (-1074) (leadUnit n d)
  unfold unitExponent
  push_cast
  omega

def Magnitude.zero : Magnitude where
  mant := 0
  exp := -1074
  mant_lt := by norm_num
  exp_ge := le_rfl
  exp_le := by norm_num
  normal := .inr rfl

/-- The binary64 number nearest to `n / d`, with the given sign. -/
def Double.ofRatio (neg : Bool) (n d : ℕ) : Double :=
  if h : 0 < n ∧ 0 < d then
    let e := unitExponent n d
    let m := roundDiv (inUnits n d e).1 (inUnits n d e).2
    if hm : m < 2 ^ 53 then
      if he : e ≤ 971 then
        .finite neg ⟨m, e, hm, le_unitExponent n d, he, le_roundDiv_unitExponent h.1 h.2⟩
      else .inf neg
    else if he : e + 1 ≤ 971 then
      -- rounding up carried into a 54th bit
      .finite neg ⟨2 ^ 52, e + 1, Nat.pow_lt_pow_right one_lt_two (by norm_num),
        (le_unitExponent n d).trans (Int.le_add_one le_rfl), he, .inl le_rfl⟩
    else .inf neg
  else .finite neg .zero

/-! ### Conversion to `int` -/

def Magnitude.floor (x : Magnitude) : ℕ := x.mant * 2 ^ x.exp.toNat / 2 ^ (-x.exp).toNat

def Magnitude.IsWhole (x : Magnitude) : Prop := x.mant * 2 ^ x.exp.toNat % 2 ^ (-x.exp).toNat = 0

instance (x : Magnitude) : Decidable x.IsWhole := inferInstanceAs (Decidable (_ = _))

/-- The least and the greatest `int`. -/
def intMin : ℤ := -2147483648
def intMax : ℤ := 2147483647

def clampInt (v : ℤ) : ℤ := max intMin (min intMax v)

def Magnitude.trunc (neg : Bool) (x : Magnitude) : ℤ := if neg then -(x.floor : ℤ) else x.floor

/-- Conversion of a `double` to `int`. Where C leaves it undefined this is what
the conversion instruction of the 64-bit Arm target does: it saturates, and a
NaN gives zero. -/
def Double.toInt : Double → ℤ
  | .nan => 0
  | .inf neg => if neg then intMin else intMax
  | .finite neg mag => clampInt (mag.trunc neg)

/-- `d - (int) d` is zero: the value is a whole number in the range of `int`. -/
def Double.IsInt : Double → Prop
  | .finite neg mag => mag.IsWhole ∧ clampInt (mag.trunc neg) = mag.trunc neg
  | _ => False

instance : DecidablePred Double.IsInt
  | .nan => inferInstanceAs (Decidable False)
  | .inf _ => inferInstanceAs (Decidable False)
  | .finite _ _ => inferInstanceAs (Decidable (_ ∧ _))

def Double.isNegative : Double → Bool
  | .nan => false
  | .inf neg => neg
  | .finite neg mag => neg && mag.mant != 0

def Double.exceeds : Double → ℕ → Bool
  | .nan, _ => false
  | .inf neg, _ => !neg
  | .finite neg mag, k => !neg && (k < mag.floor || k = mag.floor && !decide mag.IsWhole)

/-- A ratio that is a natural below `2 ^ 53` is a binary64 number, and
converting it gives that natural back. -/
theorem Double.ofRatio_mul (neg : Bool) {k d : ℕ} (hk : k < 2 ^ 53) (hd : 0 < d) :
    ∃ mag : Magnitude, Double.ofRatio neg (k * d) d = .finite neg mag ∧
      mag.floor = k ∧ mag.IsWhole := by
  rcases Nat.eq_zero_or_pos k with rfl | hpos
  · refine ⟨.zero, by simp [Double.ofRatio], ?_, ?_⟩
    · simp only [Magnitude.floor, Magnitude.zero, zero_mul, Nat.zero_div]
    · simp only [Magnitude.IsWhole, Magnitude.zero, zero_mul, Nat.zero_mod]
  · have hn : 0 < k * d := Nat.mul_pos hpos hd
    have hratio : ((k * d : ℕ) : ℚ) / d = k := by
      push_cast
      field_simp
    have he : unitExponent (k * d) d ≤ 0 := by
      have h := le_ratio_leadUnit hn hd
      rw [hratio] at h
      have hlt : (2 : ℚ) ^ (leadUnit (k * d) d + 52) < 2 ^ (53 : ℤ) :=
        h.trans_lt (by exact_mod_cast hk)
      have := (zpow_lt_zpow_iff_right₀ (one_lt_two (α := ℚ))).mp hlt
      unfold unitExponent
      omega
    obtain ⟨j, hj⟩ : ∃ j : ℕ, unitExponent (k * d) d = -j :=
      ⟨(-unitExponent (k * d) d).toNat, by omega⟩
    have hm : roundDiv (inUnits (k * d) d (-j)).1 (inUnits (k * d) d (-j)).2 = k * 2 ^ j := by
      simp only [inUnits, neg_neg, Int.toNat_natCast, Int.toNat_neg_natCast, pow_zero, mul_one]
      rw [mul_right_comm, roundDiv_mul hd]
    have hlt : k * 2 ^ j < 2 ^ 53 := by
      have h := inUnits_unitExponent_lt (n := k * d) hd
      rw [hj] at h
      simp only [inUnits, neg_neg, Int.toNat_natCast, Int.toNat_neg_natCast, pow_zero, mul_one] at h
      rw [mul_right_comm, mul_comm d] at h
      exact Nat.lt_of_mul_lt_mul_right h
    have hle : unitExponent (k * d) d ≤ 971 := he.trans (by norm_num)
    have hmlt : roundDiv (inUnits (k * d) d (unitExponent (k * d) d)).1
        (inUnits (k * d) d (unitExponent (k * d) d)).2 < 2 ^ 53 := by
      rw [hj, hm]
      exact hlt
    refine ⟨⟨_, _, hmlt, le_unitExponent _ _, hle, le_roundDiv_unitExponent hn hd⟩, ?_, ?_, ?_⟩
    · simp only [Double.ofRatio, hn, hd, and_self, hmlt, hle, dite_true]
    · simp only [Magnitude.floor, hj, hm, neg_neg, Int.toNat_natCast, Int.toNat_neg_natCast,
        pow_zero, mul_one]
      exact Nat.mul_div_cancel _ (Nat.two_pow_pos j)
    · simp only [Magnitude.IsWhole, hj, hm, neg_neg, Int.toNat_natCast, Int.toNat_neg_natCast,
        pow_zero, mul_one]
      exact Nat.mul_mod_left _ _

end OtiKiosk
