import OtiKiosk.CJson.Tree

/-!
The strings that `print_string_ptr` prints. It counts the bytes that the escapes add
before it writes them; every byte is printed as one character of RFC 8259 that means
this byte, and none as a terminator.
-/

namespace OtiKiosk

open Ascii Json

/-! ### Single bytes -/

namespace PrintBuffer

theorem escaped_of_mem {c : UInt8}
    (h : c ∈ [quote, backslash, backspace, formFeed, newline, carriageReturn, tab]) :
    (escaped c).length = 2 ∧ nul ∉ escaped c := by
  have hall : ∀ c ∈ [quote, backslash, backspace, formFeed, newline, carriageReturn, tab],
      (escaped c).length = 2 ∧ nul ∉ escaped c := by decide
  exact hall c h

theorem hexDigit_ne_nul {n : ℕ} (hn : n < 16) : hexDigit n ≠ nul := by
  have hall : ∀ n < 16, hexDigit n ≠ nul := by decide
  exact hall n hn

theorem escaped_of_control {c : UInt8}
    (hmem : c ∉ [quote, backslash, backspace, formFeed, newline, carriageReturn, tab])
    (hc : c < 32) : escaped c = backslash :: (ascii "u00" ++
      [hexDigit (c.toNat / 16), hexDigit (c.toNat % 16)]) := by
  simp only [List.mem_cons, List.not_mem_nil, or_false, not_or] at hmem
  obtain ⟨hquote, hback, h₁, h₂, h₃, h₄, h₅⟩ := hmem
  have hle : ¬31 < c := by
    rw [UInt8.lt_iff_toNat_lt] at hc ⊢
    have h32 : (32 : UInt8).toNat = 32 := rfl
    have h31 : (31 : UInt8).toNat = 31 := rfl
    omega
  rw [escaped, if_neg fun h => hle h.1, escapeOf]
  simp only [hquote, hback, h₁, h₂, h₃, h₄, h₅, if_false]

theorem escaped_of_plain {c : UInt8}
    (hmem : c ∉ [quote, backslash, backspace, formFeed, newline, carriageReturn, tab])
    (hc : ¬c < 32) : escaped c = [c] := by
  simp only [List.mem_cons, List.not_mem_nil, or_false, not_or] at hmem
  have hlt : 31 < c := by
    rw [UInt8.lt_iff_toNat_lt] at hc ⊢
    have h32 : (32 : UInt8).toNat = 32 := rfl
    have h31 : (31 : UInt8).toNat = 31 := rfl
    omega
  rw [escaped, if_pos ⟨hlt, hmem.1, hmem.2.1⟩]

theorem escaped_length (c : UInt8) :
    (escaped c).length = 1 + escapeCharacters c := by
  rw [escapeCharacters]
  split_ifs with hmem hc
  · exact (escaped_of_mem hmem).1
  · rw [escaped_of_control hmem hc]
    rfl
  · rw [escaped_of_plain hmem hc]
    rfl

theorem escaped_noNul (c : UInt8) : nul ∉ escaped c := by
  by_cases hmem : c ∈ [quote, backslash, backspace, formFeed, newline, carriageReturn, tab]
  · exact (escaped_of_mem hmem).2
  · by_cases hc : c < 32
    · have hlt := c.toNat_lt
      have hhigh := hexDigit_ne_nul (n := c.toNat / 16) (by omega)
      have hlow := hexDigit_ne_nul (n := c.toNat % 16) (by omega)
      have hword : nul ∉ backslash :: ascii "u00" := by decide
      rw [escaped_of_control hmem hc, ← List.cons_append, List.mem_append]
      simp only [hword, List.mem_cons, List.not_mem_nil, Ne.symm hhigh, Ne.symm hlow, or_false,
        not_false_iff]
    · rw [escaped_of_plain hmem hc, List.mem_singleton]
      rintro rfl
      exact hc (by decide)

theorem hexDigit_value {n : ℕ} (hn : n < 16) :
    isHexDigit (hexDigit n) = true ∧ digitValue (hexDigit n) = n := by
  have hall : ∀ n < 16, isHexDigit (hexDigit n) = true ∧ digitValue (hexDigit n) = n := by decide
  exact hall n hn

/-- The code unit of a control character. -/
theorem hexNumber_control {c : UInt8} (hc : c < 32) :
    hexNumber [48, 48, hexDigit (c.toNat / 16), hexDigit (c.toNat % 16)] = c.toNat := by
  have hlt : c.toNat < 32 := hc
  have hzero : digitValue 48 = 0 := by decide
  simp only [hexNumber, List.foldl_cons, List.foldl_nil, hzero,
    (hexDigit_value (n := c.toNat / 16) (by omega)).2,
    (hexDigit_value (n := c.toNat % 16) (by omega)).2]
  omega

theorem escaped_char (c : UInt8) : IsChar (escaped c) := by
  by_cases hmem : c ∈ [quote, backslash, backspace, formFeed, newline, carriageReturn, tab]
  · have hall : ∀ c ∈ [quote, backslash, backspace, formFeed, newline, carriageReturn, tab],
        ∃ e ∈ quote :: backslash :: slash :: ascii "bfnrt", escaped c = [backslash, e] := by decide
    obtain ⟨e, he, hescaped⟩ := hall c hmem
    rw [hescaped]
    exact .escape he
  · by_cases hc : c < 32
    · rw [escaped_of_control hmem hc]
      have hlt : c.toNat < 32 := hc
      exact .unicode (by decide) (by decide) (hexDigit_value (by omega)).1
        (hexDigit_value (by omega)).1
    · rw [escaped_of_plain hmem hc]
      simp only [List.mem_cons, List.not_mem_nil, or_false, not_or] at hmem
      exact .plain (UInt8.not_lt.mp hc) hmem.1 hmem.2.1

/-- Every escape means the byte it was made of. -/
theorem unescape_escaped (c : UInt8) (s : Bytes) : unescape (escaped c ++ s) = c :: unescape s := by
  by_cases hmem : c ∈ [quote, backslash, backspace, formFeed, newline, carriageReturn, tab]
  · have hall : ∀ c ∈ [quote, backslash, backspace, formFeed, newline, carriageReturn, tab],
        ∃ e, e ≠ 117 ∧ escaped c = [backslash, e] ∧ escapeByte e = c := by
      intro c hc
      simp only [List.mem_cons, List.not_mem_nil, or_false] at hc
      rcases hc with rfl | rfl | rfl | rfl | rfl | rfl | rfl <;>
        exact ⟨_, by decide, rfl, by decide⟩
    obtain ⟨e, he, hescaped, hbyte⟩ := hall c hmem
    rw [hescaped, ← hbyte]
    exact unescape_escape he s
  · by_cases hc : c < 32
    · have hnumber := hexNumber_control hc
      have hlt : c.toNat < 32 := hc
      have hsurrogate : ¬IsHighSurrogate (hexNumber [48, 48, hexDigit (c.toNat / 16),
          hexDigit (c.toNat % 16)]) := by
        rw [hnumber]
        exact fun h => absurd h.1 (by omega)
      rw [escaped_of_control hmem hc]
      refine (unescape_unicode hsurrogate s).trans ?_
      rw [hnumber, utf8, if_pos (by omega), UInt8.ofNat_toNat]
      rfl
    · rw [escaped_of_plain hmem hc]
      simp only [List.mem_cons, List.not_mem_nil, or_false, not_or] at hmem
      exact unescape_plain hmem.2.1 s

end PrintBuffer

/-! ### Texts -/

theorem escapedText_length (s : Bytes) :
    (escapedText s).length = s.length + (s.map PrintBuffer.escapeCharacters).sum := by
  induction s with
  | nil => rfl
  | cons c s ih =>
      have hcons : escapedText (c :: s) = PrintBuffer.escaped c ++ escapedText s := rfl
      rw [hcons, List.length_append, PrintBuffer.escaped_length, ih, List.length_cons, List.map_cons,
        List.sum_cons]
      omega

/-- A string without escapes is copied. -/
theorem escapedText_eq_self {s : Bytes} (h : (s.map PrintBuffer.escapeCharacters).sum = 0) :
    escapedText s = s := by
  induction s with
  | nil => rfl
  | cons c s ih =>
      rw [List.map_cons, List.sum_cons, Nat.add_eq_zero_iff] at h
      have hc : PrintBuffer.escaped c = [c] := by
        have hzero := h.1
        rw [PrintBuffer.escapeCharacters] at hzero
        split_ifs at hzero with hmem hlt
        exact PrintBuffer.escaped_of_plain hmem hlt
      have hcons : escapedText (c :: s) = PrintBuffer.escaped c ++ escapedText s := rfl
      rw [hcons, hc, ih h.2]
      rfl

theorem quoted_noNul (s : Bytes) : nul ∉ quoted (escapedText s) := by
  have hescaped : nul ∉ escapedText s := by
    rw [escapedText, List.mem_flatMap]
    rintro ⟨c, -, hc⟩
    exact PrintBuffer.escaped_noNul c hc
  have hquote : nul ≠ quote := by decide
  simp only [quoted, List.mem_append, List.mem_cons, List.not_mem_nil, or_false, hquote, hescaped,
    not_false_iff]

theorem escapedText_chars (s : Bytes) : IsChars (escapedText s) := by
  induction s with
  | nil => exact .nil
  | cons c s ih => exact .cons (PrintBuffer.escaped_char c) ih

/-- A string means what it was made of. -/
theorem unescape_escapedText (s : Bytes) : unescape (escapedText s) = s := by
  induction s with
  | nil => rfl
  | cons c s ih =>
      have hcons : escapedText (c :: s) = PrintBuffer.escaped c ++ escapedText s := rfl
      rw [hcons, PrintBuffer.unescape_escaped, ih]

end OtiKiosk
