import OtiKiosk.Mjson.Values

/-!
What is JSON for RFC 8259 is JSON for `mjson`, which accepts more. `\u` escapes
pass the tokenizer, but `mjson_unescape` does not know them.
-/

namespace OtiKiosk

open Ascii Json

/-! ### Numbers -/

theorem takeWhile_digits {ds : Bytes} (hds : ∀ c ∈ ds, isDigit c = true) {t : Bytes}
    (ht : ∀ c ∈ t.head?, isDigit c = false) : scanRun isDigit (ds ++ t) = (ds, t) := by
  rw [scanRun, List.takeWhile_append_of_pos hds, List.dropWhile_append_of_pos hds]
  cases t with
  | nil => simp
  | cons c t =>
      have hc := ht c rfl
      simp [hc]

theorem scanDigits_numeral {int frac t : Bytes} (hint : IsDigits int)
    (hfrac : frac = [] ∨ ∃ ds, frac = dot :: ds ∧ IsDigits ds)
    (ht : ∀ c ∈ t.head?, isDigit c = false ∧ c ≠ dot) :
    scanDigits isDigit (int ++ (frac ++ t)) = some (int, frac.tail, t) := by
  obtain ⟨hne, hint⟩ := hint
  rcases hfrac with rfl | ⟨ds, rfl, -, hds⟩
  · have hrun := takeWhile_digits hint fun c hc => (ht c hc).1
    simp only [scanDigits, List.nil_append, hrun, List.tail_nil]
    cases t with
    | nil => simp [hne]
    | cons c t =>
        have hc := (ht c rfl).2
        simp [hne, hc]
  · have hrun : scanRun isDigit (int ++ (dot :: ds ++ t)) = (int, dot :: (ds ++ t)) := by
      refine takeWhile_digits hint ?_
      intro c hc
      simp only [List.cons_append, List.head?_cons, Option.mem_some_iff] at hc
      exact hc ▸ rfl
    have hrun' := takeWhile_digits hds fun c hc => (ht c hc).1
    simp only [scanDigits, hrun, if_true, hrun', List.tail_cons]
    simp [hne]

theorem scanExponent_numeral {exp : Bytes} (hexp : exp = [] ∨ ∃ e sg ds, exp = e :: (sg ++ ds) ∧
    toLower e = 101 ∧ (sg = [] ∨ sg = [plus] ∨ sg = [minus]) ∧ IsDigits ds) :
    (scanExponent 101 exp).2 = [] := by
  rcases hexp with rfl | ⟨e, sg, ds, rfl, he, hsg, hne, hds⟩
  · rfl
  · have hsign : (scanSign (sg ++ ds)).2 = ds := by
      rcases hsg with rfl | rfl | rfl
      · obtain ⟨c, ds, rfl⟩ := List.exists_cons_of_ne_nil hne
        have hc := hds c (by simp)
        have hminus : c ≠ minus := by
          rintro rfl
          cases hc
        have hplus : c ≠ plus := by
          rintro rfl
          cases hc
        simp only [List.nil_append, scanSign, hminus, hplus, if_false]
      · rfl
      · rfl
    have hrun := takeWhile_digits (t := []) hds (fun c hc => by cases hc)
    rw [List.append_nil] at hrun
    simp only [scanExponent, he, if_true, hsign, hrun, hne, if_false]

theorem scanWord_head {w s : Bytes} {c d : UInt8} (h : toLower d ≠ c) :
    scanWord (c :: w) (d :: s) = none := by
  rw [scanWord, if_neg h]

/-- No digit starts one of the words `strtod` knows. -/
theorem toLower_digit {c : UInt8} (hc : isDigit c = true) : toLower c = c := by
  unfold isDigit at hc
  unfold toLower
  grind

theorem Json.Numeral.int_cons (n : Numeral) :
    ∃ c ds, n.int = c :: ds ∧ isDigit c = true ∧ (c = 48 → ds = []) := by
  rcases n.int_eq with h | ⟨⟨hne, hds⟩, hzero⟩
  · exact ⟨48, [], h, rfl, fun _ => rfl⟩
  · obtain ⟨c, ds, hint⟩ := List.exists_cons_of_ne_nil hne
    refine ⟨c, ds, hint, hds c (by simp [hint]), ?_⟩
    intro hc
    rw [hint, hc] at hzero
    exact (hzero rfl).elim

theorem Json.Numeral.int_digits (n : Numeral) : IsDigits n.int := by
  rcases n.int_eq with h | h
  · rw [h]
    exact ⟨nofun, by decide⟩
  · exact h.1

/-- The exponent does not start like a part of the digits. -/
theorem Json.Numeral.exp_head (n : Numeral) : ∀ c ∈ n.exp.head?, isDigit c = false ∧ c ≠ dot := by
  intro c hc
  rcases n.exp_eq with h | ⟨e, sg, ds, h, he, -⟩
  · rw [h] at hc
    cases hc
  · rw [h, List.head?_cons, Option.mem_some_iff] at hc
    subst hc
    have hcase : e = 101 ∨ e = 69 := by
      unfold toLower at he
      grind
    rcases hcase with rfl | rfl <;> decide

/-- What follows a leading zero is not the mark of a hexadecimal number. -/
theorem Json.Numeral.not_hex (n : Numeral) :
    scanWord (ascii "0x") (n.int ++ (n.frac ++ n.exp)) = none := by
  have htext : ascii "0x" = [48, 120] := by decide
  obtain ⟨c, ds, hint, hc, hzero⟩ := n.int_cons
  rw [htext, hint, List.cons_append]
  by_cases h0 : c = 48
  · obtain rfl := hzero h0
    subst h0
    rw [scanWord, if_pos (by decide), List.nil_append]
    rcases n.frac_eq with h | ⟨fs, h, -⟩
    · rw [h, List.nil_append]
      rcases n.exp_eq with h' | ⟨e, sg, es, h', he, -⟩
      · rw [h']
        rfl
      · rw [h']
        exact scanWord_head (by rw [he]; decide)
    · rw [h]
      exact scanWord_head (by decide)
  · exact scanWord_head (by rw [toLower_digit hc]; exact h0)

theorem Json.Numeral.scanMagnitude_eq (n : Numeral) (neg : Bool) :
    ∃ d, scanMagnitude neg (n.int ++ (n.frac ++ n.exp)) = some (d, []) := by
  have hword : ∀ w : Bytes, isDigit (w.headD nul) = false → w ≠ [] →
      scanWord w (n.int ++ (n.frac ++ n.exp)) = none := by
    intro w hw hne
    obtain ⟨c, ds, hint, hc, -⟩ := n.int_cons
    obtain ⟨d, w, rfl⟩ := List.exists_cons_of_ne_nil hne
    rw [hint, List.cons_append]
    refine scanWord_head ?_
    intro h
    have hd : isDigit d = false := hw
    rw [← h, toLower_digit hc, hc] at hd
    cases hd
  have hnan : scanNan (n.int ++ (n.frac ++ n.exp)) = none := by
    rw [scanNan, hword (ascii "nan") (by decide) (by decide)]
  have hdigits := scanDigits_numeral n.int_digits n.frac_eq n.exp_head
  obtain ⟨e, hexp⟩ : ∃ e, scanExponent 101 n.exp = (e, []) :=
    ⟨_, Prod.ext rfl (scanExponent_numeral n.exp_eq)⟩
  simp only [scanMagnitude, hword (ascii "infinity") (by decide) (by decide),
    hword (ascii "inf") (by decide) (by decide), hnan, n.not_hex, Option.bind_none, scanNumeral,
    hdigits, hexp, Option.map_some]
  exact ⟨_, rfl⟩

/-- A number is read to its end. -/
theorem Json.Numeral.strtod_length (n : Numeral) : (strtod n.text).2 = n.text.length := by
  obtain ⟨c, ds, hint, hc, -⟩ := n.int_cons
  have hminus : c ≠ minus ∧ c ≠ plus := by
    constructor <;> rintro rfl <;> cases hc
  have hsign : ∃ neg, scanSign (n.text.dropWhile isSpace) = (neg, n.int ++ (n.frac ++ n.exp)) := by
    rcases n.sign_eq with h | h
    · refine ⟨false, ?_⟩
      rw [Numeral.text, h, List.nil_append, hint, List.cons_append,
        List.dropWhile_cons_of_neg (by rw [(isDigit_not_white (.inr hc)).2]; nofun), scanSign,
        if_neg hminus.1, if_neg hminus.2]
    · refine ⟨true, ?_⟩
      rw [Numeral.text, h]
      rfl
  obtain ⟨neg, hsign⟩ := hsign
  obtain ⟨d, hmag⟩ := n.scanMagnitude_eq neg
  simp only [strtod, hsign, hmag, List.length_nil, Nat.sub_zero]

theorem Json.Numeral.lexicon (n : Numeral) : mjsonLexicon.number n.text := by
  obtain ⟨c, ds, hint, hc, -⟩ := n.int_cons
  refine ⟨?_, n.strtod_length⟩
  rcases n.sign_eq with h | h
  · exact ⟨c, ds ++ (n.frac ++ n.exp), by rw [Numeral.text, h, hint]; rfl, .inr hc⟩
  · exact ⟨minus, n.int ++ (n.frac ++ n.exp), by rw [Numeral.text, h]; rfl, .inl rfl⟩

/-! ### Strings -/

theorem mjsonPassString_char {u : Bytes} (hu : IsChar u) (s : Bytes) (len : ℕ) :
    mjsonPassString (u ++ s) (u.length + len) = (mjsonPassString s len).map (· + u.length) := by
  have hplain : ∀ {c : UInt8} (s : Bytes) (len : ℕ), c ≠ backslash → c ≠ nul → c ≠ quote →
      mjsonPassString (c :: s) (len + 1) = (mjsonPassString s len).map (· + 1) :=
    fun s len hback hnul hquote => mjsonPassString_plain (fun h => (hback h).elim) hnul hquote len
  have hhex : ∀ {c : UInt8}, isHexDigit c = true → c ≠ backslash ∧ c ≠ nul ∧ c ≠ quote := by
    intro c hc
    unfold isHexDigit isDigit at hc
    grind
  cases hu with
  | @plain c h32 hquote hback =>
      have hnul : c ≠ nul := by
        rintro rfl
        exact absurd h32 (by decide)
      rw [List.length_singleton, Nat.add_comm]
      exact hplain s len hback hnul hquote
  | @escape c hc =>
      rw [List.length_cons, List.length_singleton, Nat.add_comm]
      by_cases hesc : (mjsonEscOf c).isSome = true
      · exact mjsonPassString_escape hesc s len
      · -- the letters are no characters that have an escape, and pass by themselves
        have hletter : c ≠ backslash ∧ c ≠ nul ∧ c ≠ quote := by
          refine ⟨?_, ?_, ?_⟩ <;> rintro rfl
          · exact hesc rfl
          · exact absurd hc (by decide)
          · exact hesc rfl
        rw [List.cons_append, mjsonPassString_plain (by simpa using hesc) (by decide) (by decide)]
        rw [List.cons_append, List.nil_append, hplain s len hletter.1 hletter.2.1 hletter.2.2,
          Option.map_map]
        rfl
  | @unicode a b c d ha hb hc hd =>
      have hlen : [backslash, 117, a, b, c, d].length + len = len + 1 + 1 + 1 + 1 + 1 + 1 := by
        rw [Nat.add_comm]
        rfl
      obtain ⟨ha1, ha2, ha3⟩ := hhex ha
      obtain ⟨hb1, hb2, hb3⟩ := hhex hb
      obtain ⟨hc1, hc2, hc3⟩ := hhex hc
      obtain ⟨hd1, hd2, hd3⟩ := hhex hd
      rw [hlen]
      simp only [List.cons_append, List.nil_append]
      rw [mjsonPassString_plain (fun _ => by rfl) (by decide) (by decide),
        hplain _ _ (by decide) (by decide) (by decide), hplain _ _ ha1 ha2 ha3,
        hplain _ _ hb1 hb2 hb3, hplain _ _ hc1 hc2 hc3, hplain _ _ hd1 hd2 hd3]
      simp only [Option.map_map]
      rfl

theorem lexicon_chars {raw : Bytes} (h : IsChars raw) : mjsonLexicon.string raw := by
  have hpass : mjsonPassString (raw ++ [quote]) (raw.length + 1) = some raw.length := by
    induction h with
    | nil => exact mjsonPassString_quote [] 0
    | @cons u s hu _ ih =>
        rw [List.append_assoc, List.length_append, Nat.add_assoc, mjsonPassString_char hu, ih,
          Option.map_some, Nat.add_comm]
  exact hpass

/-- What is JSON for RFC 8259 is JSON for `mjson`. -/
theorem strict_le : strict.Le mjsonLexicon where
  number := by
    rintro raw ⟨n, rfl⟩
    exact n.lexicon
  string := lexicon_chars
  trailingComma := fun _ => trivial

end OtiKiosk
