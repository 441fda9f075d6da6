import OtiKiosk.Printer.Emit

/-!
Base64 in `mjson.c`. The decoder takes four characters at a time and stops when the
buffer is full, in the middle of a group if need be; characters outside the alphabet
count as 64. What the encoder prints is decoded to the bytes it was given, or to as
many of them as there is room for.
-/

namespace OtiKiosk

open Ascii Json

def mjsonBase64Rev (c : UInt8) : ℕ :=
  if 65 ≤ c ∧ c ≤ 90 then c.toNat - 65
  else if 97 ≤ c ∧ c ≤ 122 then c.toNat + 26 - 97
  else if 48 ≤ c ∧ c ≤ 57 then c.toNat + 52 - 48
  else if c = 43 then 62
  else if c = 47 then 63
  else 64

abbrev base64Pad : UInt8 := 61

/-- The bytes that the values of four characters are put together to. -/
def base64First (a b : ℕ) : UInt8 := UInt8.ofNat (a <<< 2 ||| b >>> 4)
def base64Second (b c : ℕ) : UInt8 := UInt8.ofNat (b <<< 4 ||| c >>> 2)
def base64Third (c d : ℕ) : UInt8 := UInt8.ofNat (c <<< 6 ||| d)

/-- The loop of `mjson_base64_dec`, with room for `room` more bytes. -/
def mjsonBase64DecLoop : Bytes → ℕ → Bytes
  | s₀ :: s₁ :: s₂ :: s₃ :: src, room + 1 =>
      let a := mjsonBase64Rev s₀
      let b := mjsonBase64Rev s₁
      let c := mjsonBase64Rev s₂
      let d := mjsonBase64Rev s₃
      if s₂ ≠ base64Pad ∧ 0 < room then
        if s₃ ≠ base64Pad ∧ 1 < room then
          base64First a b :: base64Second b c :: base64Third c d :: mjsonBase64DecLoop src (room - 2)
        else base64First a b :: base64Second b c :: mjsonBase64DecLoop src (room - 1)
      else base64First a b :: mjsonBase64DecLoop src room
  | _, _ => []

/-- `mjson_base64_dec` into a buffer of `dlen` bytes: what it writes from the start of the buffer
on, and the length it returns. -/
def mjsonBase64Dec (src : Bytes) (dlen : ℕ) : Bytes × ℕ :=
  let w := mjsonBase64DecLoop src dlen
  (if w.length < dlen then w ++ [nul] else w, w.length)

def mjsonGetBase64 (s : Bytes) (len : ℕ) (path : Bytes) (n : ℕ) : Bytes × ℕ :=
  let f := mjsonFind s len path
  if f.tok ≠ .string then ([], 0)
  else mjsonBase64Dec ((s.drop (f.off + 1)).take (f.len - 2)) n

/-! ### Decoding, whatever the room -/

def base64Group (s₀ s₁ s₂ s₃ : UInt8) : Bytes :=
  base64First (mjsonBase64Rev s₀) (mjsonBase64Rev s₁) ::
    if s₂ = base64Pad then []
    else base64Second (mjsonBase64Rev s₁) (mjsonBase64Rev s₂) ::
      if s₃ = base64Pad then [] else [base64Third (mjsonBase64Rev s₂) (mjsonBase64Rev s₃)]

def base64Decoded : Bytes → Bytes
  | s₀ :: s₁ :: s₂ :: s₃ :: src => base64Group s₀ s₁ s₂ s₃ ++ base64Decoded src
  | _ => []

theorem mjsonBase64DecLoop_zero (src : Bytes) : mjsonBase64DecLoop src 0 = [] := by
  rw [mjsonBase64DecLoop.eq_def]
  split
  · next h => cases h
  · rfl

/-- One turn of the loop writes its group, as far as there is room. -/
theorem mjsonBase64DecLoop_group (s₀ s₁ s₂ s₃ : UInt8) (src : Bytes) (room : ℕ) :
    mjsonBase64DecLoop (s₀ :: s₁ :: s₂ :: s₃ :: src) room =
      (base64Group s₀ s₁ s₂ s₃).take room ++
        mjsonBase64DecLoop src (room - (base64Group s₀ s₁ s₂ s₃).length) := by
  cases room with
  | zero => rw [mjsonBase64DecLoop_zero, Nat.zero_sub, mjsonBase64DecLoop_zero, List.take_zero]; rfl
  | succ room =>
      rw [mjsonBase64DecLoop, base64Group]
      by_cases h₂ : s₂ = base64Pad
      · simp [h₂]
      · by_cases h₃ : s₃ = base64Pad
        · cases room with
          | zero => simp [h₂, h₃, mjsonBase64DecLoop_zero]
          | succ room => simp [h₂, h₃]
        · -- the buffer may be full after one byte or after two
          match room with
          | 0 => simp [h₂, h₃, mjsonBase64DecLoop_zero]
          | 1 => simp [h₂, h₃, mjsonBase64DecLoop_zero]
          | room + 2 => simp [h₂, h₃]

/-- **The decoder** writes as much of what the text is decoded to as there is room for. -/
theorem mjsonBase64DecLoop_eq (src : Bytes) (room : ℕ) :
    mjsonBase64DecLoop src room = (base64Decoded src).take room := by
  induction src using base64Decoded.induct generalizing room with
  | case1 s₀ s₁ s₂ s₃ src ih =>
      rw [mjsonBase64DecLoop_group, base64Decoded, List.take_append, ih]
  | case2 src h =>
      rw [base64Decoded.eq_def, mjsonBase64DecLoop.eq_def]
      split
      · exact (h _ _ _ _ _ rfl).elim
      · split
        · exact (h _ _ _ _ _ rfl).elim
        · exact List.take_nil.symm

/-- **The decoder** stays inside its buffer, terminator included, for every text; what it leaves
there is the beginning of what the text is decoded to, and all of it if there is room. -/
theorem mjsonBase64Dec_bounded (src : Bytes) (dlen : ℕ) :
    (mjsonBase64Dec src dlen).1.length ≤ dlen ∧
      (mjsonBase64Dec src dlen).2 = min dlen (base64Decoded src).length ∧
      (mjsonBase64Dec src dlen).1.take (mjsonBase64Dec src dlen).2 =
        (base64Decoded src).take dlen ∧
      ((base64Decoded src).length < dlen →
        (mjsonBase64Dec src dlen).1 = base64Decoded src ++ [nul]) := by
  simp only [mjsonBase64Dec, mjsonBase64DecLoop_eq, List.length_take]
  refine ⟨?_, trivial, ?_, ?_⟩
  · split_ifs with h
    · rw [List.length_append, List.length_take, List.length_singleton]
      omega
    · rw [List.length_take]
      omega
  · split_ifs with h
    · rw [List.take_append_of_le_length (by rw [List.length_take]), ← List.length_take,
        List.take_length]
    · rw [← List.length_take, List.take_length]
  · intro h
    rw [if_pos (by omega), List.take_of_length_le h.le]

/-! ### What the encoder prints -/

theorem or_shift {x y i : ℕ} (h : y < 2 ^ i) : x <<< i ||| y = x * 2 ^ i + y := by
  rw [← Nat.shiftLeft_add_eq_or_of_lt h, Nat.shiftLeft_eq]

set_option maxRecDepth 4000 in
theorem base64Rev_char : ∀ k < 64, mjsonBase64Rev (base64Char k) = k ∧ base64Char k ≠ base64Pad := by
  decide

/-- The values of the four characters for three bytes. -/
theorem base64Quad_values (a : ℕ) {b c : ℕ} (hb : b < 256) (hc : c < 256) :
    (a >>> 2 = a / 4 ∧ (a &&& 3) <<< 4 ||| b >>> 4 = a % 4 * 16 + b / 16) ∧
      ((b &&& 15) <<< 2 ||| c >>> 6 = b % 16 * 4 + c / 64 ∧ c &&& 63 = c % 64) := by
  have hmod : ∀ x : ℕ, (x &&& 3 = x % 4 ∧ x &&& 15 = x % 16) ∧ x &&& 63 = x % 64 := fun x =>
    ⟨⟨Nat.and_two_pow_sub_one_eq_mod x 2, Nat.and_two_pow_sub_one_eq_mod x 4⟩,
      Nat.and_two_pow_sub_one_eq_mod x 6⟩
  simp only [hmod, Nat.shiftRight_eq_div_pow]
  refine ⟨⟨trivial, or_shift ?_⟩, or_shift ?_, trivial⟩ <;> omega

theorem ofNat_eq {n : ℕ} {a : UInt8} (h : n % 256 = a.toNat) : UInt8.ofNat n = a := by
  rw [← UInt8.toNat_inj, UInt8.toNat_ofNat']
  exact h

/-- Three bytes are put together again from the values of their four characters. -/
theorem base64_bytes (a b c : UInt8) :
    base64First (a.toNat / 4) (a.toNat % 4 * 16 + b.toNat / 16) = a ∧
      base64Second (a.toNat % 4 * 16 + b.toNat / 16) (b.toNat % 16 * 4 + c.toNat / 64) = b ∧
      base64Third (b.toNat % 16 * 4 + c.toNat / 64) (c.toNat % 64) = c := by
  have ha := a.toNat_lt
  have hb := b.toNat_lt
  have hc := c.toNat_lt
  refine ⟨ofNat_eq ?_, ofNat_eq ?_, ofNat_eq ?_⟩
  · rw [Nat.shiftRight_eq_div_pow, or_shift] <;> omega
  · rw [Nat.shiftRight_eq_div_pow, or_shift] <;> omega
  · rw [or_shift] <;> omega

theorem base64Decoded_full (a b c : UInt8) (src : Bytes) :
    base64Decoded (base64Quad a.toNat (some b.toNat) (some c.toNat) ++ src) =
      a :: b :: c :: base64Decoded src := by
  obtain ⟨⟨hk₀, hk₁⟩, hk₂, hk₃⟩ := base64Quad_values a.toNat b.toNat_lt c.toNat_lt
  obtain ⟨hfirst, hsecond, hthird⟩ := base64_bytes a b c
  have ha := a.toNat_lt
  have hb := b.toNat_lt
  have hc := c.toNat_lt
  obtain ⟨h₀, -⟩ := base64Rev_char (a.toNat / 4) (by omega)
  obtain ⟨h₁, -⟩ := base64Rev_char (a.toNat % 4 * 16 + b.toNat / 16) (by omega)
  obtain ⟨h₂, hne₂⟩ := base64Rev_char (b.toNat % 16 * 4 + c.toNat / 64) (by omega)
  obtain ⟨h₃, hne₃⟩ := base64Rev_char (c.toNat % 64) (by omega)
  simp only [base64Quad, Option.getD_some, hk₀, hk₁, hk₂, hk₃, List.cons_append, List.nil_append,
    base64Decoded, base64Group, h₀, h₁, h₂, h₃, hne₂, hne₃, if_false, hfirst, hsecond, hthird]

/-- A last group of two bytes; the missing one counts as 0. -/
theorem base64Decoded_two (a b : UInt8) :
    base64Decoded (base64Quad a.toNat (some b.toNat) none) = [a, b] := by
  obtain ⟨⟨hk₀, hk₁⟩, hk₂, -⟩ := base64Quad_values a.toNat b.toNat_lt (c := 0) (by decide)
  obtain ⟨hfirst, hsecond, -⟩ := base64_bytes a b 0
  rw [UInt8.toNat_zero] at hsecond
  have ha := a.toNat_lt
  have hb := b.toNat_lt
  obtain ⟨h₀, -⟩ := base64Rev_char (a.toNat / 4) (by omega)
  obtain ⟨h₁, -⟩ := base64Rev_char (a.toNat % 4 * 16 + b.toNat / 16) (by omega)
  obtain ⟨h₂, hne₂⟩ := base64Rev_char (b.toNat % 16 * 4 + 0 / 64) (by omega)
  simp only [base64Quad, Option.getD_some, Option.getD_none, hk₀, hk₁, hk₂, base64Decoded,
    base64Group, h₀, h₁, h₂, hne₂, if_true, if_false, hfirst, hsecond, List.append_nil]

theorem base64Decoded_one (a : UInt8) : base64Decoded (base64Quad a.toNat none none) = [a] := by
  obtain ⟨⟨hk₀, hk₁⟩, -⟩ := base64Quad_values a.toNat (b := 0) (c := 0) (by decide) (by decide)
  obtain ⟨hfirst, -⟩ := base64_bytes a 0 0
  rw [UInt8.toNat_zero] at hfirst
  have ha := a.toNat_lt
  obtain ⟨h₀, -⟩ := base64Rev_char (a.toNat / 4) (by omega)
  obtain ⟨h₁, -⟩ := base64Rev_char (a.toNat % 4 * 16 + 0 / 16) (by omega)
  simp only [base64Quad, Option.getD_none, hk₀, hk₁, base64Decoded, base64Group, h₀, h₁, if_true,
    hfirst, List.append_nil]

/-- The encoder's groups are decoded to the bytes they were printed for. -/
theorem base64Decoded_quads (s : Bytes) : base64Decoded (base64Quads s).flatten = s := by
  induction s using base64Quads.induct with
  | case1 => rfl
  | case2 a =>
      rw [base64Quads, List.flatten_singleton, base64Decoded_one]
  | case3 a b =>
      rw [base64Quads, List.flatten_singleton, base64Decoded_two]
  | case4 a b c s ih =>
      rw [base64Quads, List.flatten_cons, base64Decoded_full, ih]

/-! ### As a string of a text -/

set_option maxRecDepth 4000 in
theorem base64Char_plain : ∀ k < 64, 32 ≤ base64Char k ∧ base64Char k ≠ quote ∧
    base64Char k ≠ backslash := by
  decide

theorem base64Quad_plain {a : ℕ} (ha : a < 256) {b c : Option ℕ} (hb : ∀ x ∈ b, x < 256)
    (hc : ∀ x ∈ c, x < 256) : IsPlain (base64Quad a b c) := by
  have hb' : b.getD 0 < 256 := by
    cases b with
    | none => decide
    | some b => exact hb b rfl
  have hc' : c.getD 0 < 256 := by
    cases c with
    | none => decide
    | some c => exact hc c rfl
  obtain ⟨⟨hk₀, hk₁⟩, hk₂, hk₃⟩ := base64Quad_values a hb' hc'
  have hpad : 32 ≤ base64Pad ∧ base64Pad ≠ quote ∧ base64Pad ≠ backslash := by decide
  intro x hx
  simp only [base64Quad, List.mem_cons, List.not_mem_nil, or_false] at hx
  rcases hx with rfl | rfl | rfl | rfl
  · rw [hk₀]
    exact base64Char_plain _ (by omega)
  · rw [hk₁]
    exact base64Char_plain _ (by omega)
  · cases b with
    | none => exact hpad
    | some b =>
        rw [Option.getD_some] at hk₂
        have hplain := base64Char_plain (b % 16 * 4 + c.getD 0 / 64) (by omega)
        rw [← hk₂] at hplain
        exact hplain
  · cases c with
    | none => exact hpad
    | some c =>
        rw [Option.getD_some] at hk₃
        have hplain := base64Char_plain (c % 64) (by omega)
        rw [← hk₃] at hplain
        exact hplain

theorem base64Quads_plain (s : Bytes) : IsPlain (base64Quads s).flatten := by
  have hbyte : ∀ (x : UInt8) (y : ℕ), y ∈ some x.toNat → y < 256 := by
    intro x y hy
    rw [Option.mem_some_iff] at hy
    exact hy ▸ x.toNat_lt
  have hnone : ∀ y ∈ (none : Option ℕ), y < 256 := fun y hy => by cases hy
  induction s using base64Quads.induct with
  | case1 => exact fun c hc => absurd hc List.not_mem_nil
  | case2 a =>
      rw [base64Quads, List.flatten_singleton]
      exact base64Quad_plain a.toNat_lt hnone hnone
  | case3 a b =>
      rw [base64Quads, List.flatten_singleton]
      exact base64Quad_plain a.toNat_lt (hbyte b) hnone
  | case4 a b c s ih =>
      rw [base64Quads, List.flatten_cons]
      intro x hx
      rcases List.mem_append.mp hx with hx | hx
      · exact base64Quad_plain a.toNat_lt (hbyte b) (hbyte c) x hx
      · exact ih x hx

theorem mjsonPrintB64_flatten (s : Bytes) :
    (mjsonPrintB64 s).flatten = quoted (base64Quads s).flatten := by
  show [quote] ++ (base64Quads s ++ [[quote]]).flatten = _
  rw [List.flatten_append]
  rfl

theorem mjsonBase64Dec_quads (s : Bytes) (n : ℕ) :
    mjsonBase64Dec (base64Quads s).flatten n =
      (if s.length < n then s ++ [nul] else s.take n, min n s.length) := by
  simp only [mjsonBase64Dec, mjsonBase64DecLoop_eq, base64Decoded_quads, List.length_take]
  by_cases h : s.length < n
  · rw [if_pos (by omega), if_pos h, List.take_of_length_le h.le]
  · rw [if_neg (by omega), if_neg h]

/-- **Printed bytes** are one string for every reader of JSON, and are decoded to what they were,
cut off where the buffer ends. -/
theorem printB64_exact (s : Bytes) :
    ∃ raw, (mjsonPrintB64 s).flatten = quoted raw ∧ strict.string raw ∧
      ∀ n, mjsonBase64Dec raw n =
        (if s.length < n then s ++ [nul] else s.take n, min n s.length) :=
  ⟨_, mjsonPrintB64_flatten s, (base64Quads_plain s).chars, mjsonBase64Dec_quads s⟩

/-- The reader of base64, where a lookup finds a member or nothing. -/
theorem mjsonGetBase64_of {s : Bytes} {len : ℕ} {path : Bytes} {u : Option Located}
    (hfind : mjsonFind s len path = .of u) (hu : ∀ v, u = some v → v.Member s) (n : ℕ) :
    mjsonGetBase64 s len path n =
      match u.bind fun v => v.value.string? with
      | none => ([], 0)
      | some raw => mjsonBase64Dec raw n := by
  simp only [mjsonGetBase64, hfind]
  cases u with
  | none => rfl
  | some v =>
      have hmember := hu v rfl
      obtain ⟨i, v⟩ := v
      cases v with
      | string raw =>
          have hraw := hmember.raw_eq rfl
          simp only [Found.of, Phrase.tok, ne_eq, not_true_eq_false, if_false, Option.bind_some,
            Phrase.string?]
          rw [hraw]
      | node b items => cases b <;> rfl
      | _ => rfl

end OtiKiosk
