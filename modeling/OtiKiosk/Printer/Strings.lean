import OtiKiosk.Printer.Emit

/-!
Strings as `mjson_print_str` prints them. It escapes the eight bytes that have an
escape and leaves all others as they are, control characters included. So what it
prints is always read back as it was, unless there is a NUL in it, but is not always
what RFC 8259 calls a string.
-/

namespace OtiKiosk

open Ascii Json

/-- What is printed between the quotes. -/
def escapeText (s : Bytes) : Bytes := s.flatMap fun c => (escapePieces c).flatten

theorem mjsonPrintStr_flatten (s : Bytes) : (mjsonPrintStr s).flatten = quoted (escapeText s) := by
  have hbody : (s.flatMap escapePieces).flatten = escapeText s := by
    induction s with
    | nil => rfl
    | cons c s ih =>
        rw [List.flatMap_cons, List.flatten_append, ih]
        rfl
  show [quote] ++ (s.flatMap escapePieces ++ [[quote]]).flatten = _
  rw [List.flatten_append, hbody]
  rfl

theorem mem_of_mjsonEscOf {c e : UInt8} (h : mjsonEscOf c = some e) :
    (c, e) ∈ escaped.zip escapes := by
  rw [mjsonEscOf, List.lookup_eq_some_iff] at h
  obtain ⟨l, l', heq, -⟩ := h
  rw [heq]
  exact List.mem_append_right _ List.mem_cons_self

/-- The letter of an escape stands for the byte it was printed for. -/
theorem mjsonEsc_of_escOf {c e : UInt8} (h : mjsonEscOf c = some e) : mjsonEsc e = some c := by
  have hall : ∀ p ∈ escaped.zip escapes, mjsonEsc p.2 = some p.1 := by decide
  exact hall _ (mem_of_mjsonEscOf h)

theorem letter_of_escOf {c e : UInt8} (h : mjsonEscOf c = some e) :
    e ∈ quote :: backslash :: slash :: ascii "bfnrt" := by
  have hall : ∀ p ∈ escaped.zip escapes, p.2 ∈ quote :: backslash :: slash :: ascii "bfnrt" := by
    decide
  exact hall _ (mem_of_mjsonEscOf h)

theorem mjsonEscOf_eq_none_iff (c : UInt8) : mjsonEscOf c = none ↔ c ∉ escaped := by
  constructor
  · intro h hc
    have hall : ∀ c ∈ escaped, mjsonEscOf c ≠ none := by decide
    exact hall c hc h
  · intro hc
    cases h : mjsonEscOf c with
    | none => rfl
    | some e => exact (hc (List.of_mem_zip (mem_of_mjsonEscOf h)).1).elim

/-- A byte that has no escape is neither a quote nor a backslash. -/
theorem of_escOf_none {c : UInt8} (h : mjsonEscOf c = none) : c ≠ quote ∧ c ≠ backslash := by
  rw [mjsonEscOf_eq_none_iff] at h
  constructor
  · rintro rfl
    exact h (by decide)
  · rintro rfl
    exact h (by decide)

theorem escapeText_some {c e : UInt8} (h : mjsonEscOf c = some e) (s : Bytes) :
    escapeText (c :: s) = backslash :: e :: escapeText s := by
  rw [escapeText, List.flatMap_cons, escapePieces, h]
  rfl

theorem escapeText_none {c : UInt8} (h : mjsonEscOf c = none) (s : Bytes) :
    escapeText (c :: s) = c :: escapeText s := by
  rw [escapeText, List.flatMap_cons, escapePieces, h]
  rfl

theorem decode_escapeText (s : Bytes) : decode (escapeText s) = some s := by
  induction s with
  | nil => rfl
  | cons c s ih =>
      cases h : mjsonEscOf c with
      | some e =>
          rw [escapeText_some h, decode_escape, mjsonEsc_of_escOf h, Option.bind_some, ih]
          rfl
      | none =>
          rw [escapeText_none h, decode_plain (of_escOf_none h).2, ih]
          rfl

theorem nul_mem_escapeText_iff (s : Bytes) : nul ∈ escapeText s ↔ nul ∈ s := by
  induction s with
  | nil => rfl
  | cons c s ih =>
      cases h : mjsonEscOf c with
      | some e =>
          have hletter : nul ≠ e := by
            rintro rfl
            exact absurd (letter_of_escOf h) (by decide)
          have hc : nul ≠ c := (mjsonEsc_ne_nul (mjsonEsc_of_escOf h)).symm
          have hback : nul ≠ backslash := by decide
          rw [escapeText_some h, List.mem_cons, List.mem_cons, List.mem_cons, ih]
          simp only [hletter, hc, hback, false_or]
      | none => rw [escapeText_none h, List.mem_cons, List.mem_cons, ih]

theorem newline_notMem_escapeText (s : Bytes) : newline ∉ escapeText s := by
  induction s with
  | nil => exact List.not_mem_nil
  | cons c s ih =>
      cases h : mjsonEscOf c with
      | some e =>
          have hletter : newline ≠ e := by
            rintro rfl
            exact absurd (letter_of_escOf h) (by decide)
          rw [escapeText_some h, List.mem_cons, List.mem_cons, not_or, not_or]
          exact ⟨by decide, hletter, ih⟩
      | none =>
          have hc : newline ≠ c := by
            rintro rfl
            exact (mjsonEscOf_eq_none_iff _).mp h (by decide)
          rw [escapeText_none h, List.mem_cons, not_or]
          exact ⟨hc, ih⟩

theorem mjsonPassString_escapeText {s : Bytes} (hs : nul ∉ s) :
    mjsonPassString (escapeText s ++ [quote]) ((escapeText s).length + 1) =
      some (escapeText s).length := by
  induction s with
  | nil => exact mjsonPassString_quote [] 0
  | cons c s ih =>
      rw [List.mem_cons, not_or] at hs
      replace ih := ih hs.2
      cases h : mjsonEscOf c with
      | some e =>
          have hchar := mjsonPassString_char (.escape (letter_of_escOf h))
            (escapeText s ++ [quote]) ((escapeText s).length + 1)
          rw [ih, Option.map_some] at hchar
          rw [escapeText_some h]
          exact (congrArg _ (by simp only [List.length_cons, List.length_nil]; omega)).trans hchar
      | none =>
          obtain ⟨hquote, hback⟩ := of_escOf_none h
          rw [escapeText_none h, List.cons_append, List.length_cons,
            mjsonPassString_plain (fun hc => (hback hc).elim) (Ne.symm hs.1) hquote, ih,
            Option.map_some]

theorem lexicon_escapeText_iff (s : Bytes) : mjsonLexicon.string (escapeText s) ↔ nul ∉ s := by
  constructor
  · intro h hs
    exact lexicon_noNul h ((nul_mem_escapeText_iff s).mpr hs)
  · exact mjsonPassString_escapeText

/-- The first character of a string is an escape if it starts with a backslash. -/
theorem isChars_escape_iff {e : UInt8} (he : e ∈ quote :: backslash :: slash :: ascii "bfnrt")
    (s : Bytes) : IsChars (backslash :: e :: s) ↔ IsChars s := by
  constructor
  · generalize ht : backslash :: e :: s = t
    intro h
    cases h with
    | nil => cases ht
    | cons hu hrest =>
        cases hu with
        | plain h32 hquote hback =>
            obtain ⟨rfl, -⟩ := List.cons.inj ht
            exact (hback rfl).elim
        | escape hc =>
            obtain ⟨-, ht⟩ := List.cons.inj ht
            obtain ⟨-, rfl⟩ := List.cons.inj ht
            exact hrest
        | unicode ha hb hc hd =>
            obtain ⟨-, ht⟩ := List.cons.inj ht
            obtain ⟨rfl, -⟩ := List.cons.inj ht
            exact absurd he (by decide)
  · exact .cons (u := [backslash, e]) (.escape he)

theorem isChars_plain_iff {c : UInt8} (hback : c ≠ backslash) (s : Bytes) :
    IsChars (c :: s) ↔ (32 ≤ c ∧ c ≠ quote) ∧ IsChars s := by
  constructor
  · generalize ht : c :: s = t
    intro h
    cases h with
    | nil => cases ht
    | cons hu hrest =>
        cases hu with
        | plain h32 hquote _ =>
            obtain ⟨rfl, rfl⟩ := List.cons.inj ht
            exact ⟨⟨h32, hquote⟩, hrest⟩
        | escape hc =>
            obtain ⟨rfl, -⟩ := List.cons.inj ht
            exact (hback rfl).elim
        | unicode ha hb hc hd =>
            obtain ⟨rfl, -⟩ := List.cons.inj ht
            exact (hback rfl).elim
  · rintro ⟨⟨h32, hquote⟩, hs⟩
    exact .cons (u := [c]) (.plain h32 hquote hback) hs

theorem isChars_escapeText_iff (s : Bytes) :
    IsChars (escapeText s) ↔ ∀ c ∈ s, 32 ≤ c ∨ c ∈ escaped := by
  induction s with
  | nil => exact ⟨fun _ c hc => absurd hc List.not_mem_nil, fun _ => .nil⟩
  | cons c s ih =>
      rw [List.forall_mem_cons, ← ih]
      cases h : mjsonEscOf c with
      | some e =>
          have hc : c ∈ escaped := (List.of_mem_zip (mem_of_mjsonEscOf h)).1
          rw [escapeText_some h, isChars_escape_iff (letter_of_escOf h)]
          exact ⟨fun hs => ⟨.inr hc, hs⟩, And.right⟩
      | none =>
          obtain ⟨hquote, hback⟩ := of_escOf_none h
          have hc := (mjsonEscOf_eq_none_iff c).mp h
          rw [escapeText_none h, isChars_plain_iff hback]
          exact ⟨fun hs => ⟨.inl hs.1.1, hs.2⟩, fun hs => ⟨⟨hs.1.resolve_right hc, hquote⟩, hs.2⟩⟩

/-- **Printed strings**: `mjson` takes the text for a string exactly if there is no NUL in it; it is
one for RFC 8259 exactly if its control characters have escapes; and it stands for what was
printed, for any buffer with room for it and a terminator. -/
theorem printStr_exact (s : Bytes) :
    ∃ raw, (mjsonPrintStr s).flatten = quoted raw ∧
      (mjsonLexicon.string raw ↔ nul ∉ s) ∧
      (strict.string raw ↔ ∀ c ∈ s, 32 ≤ c ∨ c ∈ escaped) ∧
      ∀ n, mjsonUnescape raw n = (s ++ [nul], some s.length) ↔ s.length < n := by
  refine ⟨escapeText s, mjsonPrintStr_flatten s, lexicon_escapeText_iff s, isChars_escapeText_iff s, ?_⟩
  intro n
  rw [mjsonUnescape_eq_iff]
  exact ⟨And.right, fun hn => ⟨decode_escapeText s, hn⟩⟩

end OtiKiosk
