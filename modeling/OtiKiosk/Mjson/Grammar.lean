import OtiKiosk.Mjson.Tokenizer

/-!
What the tokenizer accepts, and what it says about it. A text on which `mjson`
succeeds is the text of a tree, and the calls it makes are the tree's tokens, in
order (`mjson_sound`); on the text of a tree it succeeds (`mjson_complete`).
-/

namespace OtiKiosk

open Ascii Json

/-! ### The loop without fuel -/

/-- Turns that the loop needs at most. Only the minus sign of no number costs a
turn without a byte, and only where a value is expected. -/
def need (avail : ℕ) (expecting : Expecting) : ℕ :=
  2 * avail + (if expecting = .value then 1 else 0) + 1

theorem valueTurn_next {N N' : List Bracket} {tok tok' : Tok} {len len' : ℕ} {e' : Expecting}
    (h : valueTurn N tok len = .next tok' len' N' e') : len' = len ∧ e' = .commaOrEoo := by
  unfold valueTurn at h
  split at h
  · cases h
  · cases h
    exact ⟨rfl, rfl⟩

theorem closeTurn_next {b : Bracket} {N N' : List Bracket} {tok' : Tok} {len' : ℕ}
    {e' : Expecting} (h : closeTurn b N = .next tok' len' N' e') :
    len' = 1 ∧ e' = .commaOrEoo := by
  unfold closeTurn at h
  split at h
  · cases h
  · split at h
    · split at h
      · cases h
      · cases h
        exact ⟨rfl, rfl⟩
    · cases h

theorem openTurn_next {b : Bracket} {N N' : List Bracket} {tok' : Tok} {len' : ℕ}
    {e e' : Expecting} (h : openTurn b N e = .next tok' len' N' e') :
    len' = 1 ∧ e' = e := by
  unfold openTurn at h
  split at h
  · cases h
  · cases h
    exact ⟨rfl, rfl⟩

theorem turn_next {s : Bytes} {a : ℕ} {N N' : List Bracket} {e e' : Expecting} {tok : Tok}
    {len : ℕ} (h : turn s a N e = .next tok len N' e') :
    1 ≤ len ∨ e = .value ∧ e' = .commaOrEoo := by
  cases e with
  | value =>
      simp only [turn, valueCase] at h
      split_ifs at h
      · exact .inl (openTurn_next h).1.ge
      · exact .inl (openTurn_next h).1.ge
      · exact .inl (closeTurn_next h).1.ge
      · exact .inr ⟨rfl, (valueTurn_next h).2⟩
      · exact .inr ⟨rfl, (valueTurn_next h).2⟩
      · exact .inr ⟨rfl, (valueTurn_next h).2⟩
      · exact .inr ⟨rfl, (valueTurn_next h).2⟩
      · split at h
        · cases h
        · exact .inr ⟨rfl, (valueTurn_next h).2⟩
  | key =>
      simp only [turn, keyCase] at h
      split_ifs at h
      · split at h
        · cases h
        · cases h
          exact .inl (by omega)
      · exact .inl (closeTurn_next h).1.ge
  | colon =>
      simp only [turn, colonCase] at h
      split_ifs at h
      cases h
      exact .inl le_rfl
  | commaOrEoo =>
      cases N with
      | nil => cases h
      | cons top outer =>
          simp only [turn, commaOrEooCase] at h
          split_ifs at h
          · cases h
            exact .inl le_rfl
          · cases h
            exact .inl le_rfl
          · exact .inl (closeTurn_next h).1.ge
          · exact .inl (closeTurn_next h).1.ge

theorem turn_need {s : Bytes} {a : ℕ} {N N' : List Bracket} {e e' : Expecting} {tok : Tok}
    {len : ℕ} (ha : a ≠ 0) (h : turn s a N e = .next tok len N' e') :
    need (a - len) e' + 1 ≤ need a e := by
  have hlen := turn_next h
  unfold need
  rcases hlen with hlen | ⟨rfl, rfl⟩
  · split_ifs <;> omega
  · simp

theorem mjsonLoop_fuel {f g : ℕ} {s : Bytes} {i a : ℕ} {N : List Bracket} {e : Expecting}
    (hf : need a e ≤ f) (hf' : need a e ≤ g) :
    mjsonLoop f s i a N e = mjsonLoop g s i a N e := by
  induction f generalizing g s i a N e with
  | zero => simp [need] at hf
  | succ f ih =>
      cases g with
      | zero => simp [need] at hf'
      | succ g =>
          simp only [mjsonLoop]
          by_cases ha : a = 0
          · simp [ha]
          · simp only [ha, if_false]
            by_cases hw : isWhitespace (s.headD nul) = true
            · have hneed : need (a - 1) e + 1 ≤ need a e := by
                unfold need
                omega
              simp only [hw, if_true]
              exact ih (by omega) (by omega)
            · simp only [hw, if_false, Bool.false_eq_true]
              cases hturn : turn s a N e with
              | error code => rfl
              | finish tok len => rfl
              | next tok len N' e' =>
                  have hneed := turn_need ha hturn
                  simp only [ih (g := g) (s := s.drop len) (i := i + len) (a := a - len)
                    (N := N') (e := e') (by omega) (by omega)]

/-- The loop, run for as long as it takes. -/
def scan (s : Bytes) (i a : ℕ) (N : List Bracket) (e : Expecting) : ℤ × List Event :=
  mjsonLoop (need a e) s i a N e

/-- More calls before those of a run. -/
def emits (es : List Event) (r : ℤ × List Event) : ℤ × List Event := (r.1, es ++ r.2)

@[simp] theorem emits_fst (es : List Event) (r : ℤ × List Event) : (emits es r).1 = r.1 := rfl

@[simp] theorem emits_emits (es es' : List Event) (r : ℤ × List Event) :
    emits es (emits es' r) = emits (es ++ es') r := by simp [emits]

theorem mjson_eq_scan (s : Bytes) (len : ℕ) : mjson s len = scan s 0 len [] .value :=
  mjsonLoop_fuel (by simp [need]) le_rfl

theorem scan_blank {c : UInt8} (hc : isWhitespace c = true) (s : Bytes) (i a : ℕ)
    (N : List Bracket) (e : Expecting) :
    scan (c :: s) i (a + 1) N e = scan s (i + 1) a N e := by
  have hneed : need a e + 1 ≤ need (a + 1) e := by
    unfold need
    omega
  rw [scan, mjsonLoop_fuel (g := need a e + 1 + need a e + 1) le_rfl (by unfold need; omega)]
  simp only [mjsonLoop, List.headD_cons, hc, List.tail_cons, Nat.add_sub_cancel]
  simp
  exact mjsonLoop_fuel (by omega) le_rfl

/-- The run from a turn on. -/
def follow (s : Bytes) (i a : ℕ) : Turn → ℤ × List Event
  | .error code => (code, [])
  | .finish tok len => ((i + len : ℕ), [⟨tok, i, len⟩])
  | .next tok len N' e' => emits [⟨tok, i, len⟩] (scan (s.drop len) (i + len) (a - len) N' e')

theorem scan_turn {s : Bytes} {i a : ℕ} {N : List Bracket} {e : Expecting} (ha : a ≠ 0)
    (hs : isWhitespace (s.headD nul) = false) :
    scan s i a N e = follow s i a (turn s a N e) := by
  obtain ⟨f, hf⟩ : ∃ f, need a e = f + 1 := ⟨_, rfl⟩
  rw [scan, hf]
  simp only [mjsonLoop, ha, hs, if_false, Bool.false_eq_true]
  cases hturn : turn s a N e with
  | error code => rfl
  | finish tok len => rfl
  | next tok len N' e' =>
      have hneed := turn_need ha hturn
      simp only [follow, emits, scan, List.singleton_append,
        mjsonLoop_fuel (f := f) (g := need (a - len) e') (by omega) le_rfl]

def resume (N : List Bracket) (s : Bytes) (i a : ℕ) : ℤ × List Event :=
  if N = [] then ((i : ℤ), []) else scan s i a N .commaOrEoo

theorem follow_valueTurn (s : Bytes) (i a : ℕ) (N : List Bracket) (tok : Tok) (len : ℕ) :
    follow s i a (valueTurn N tok len) =
      emits [⟨tok, i, len⟩] (resume N (s.drop len) (i + len) (a - len)) := by
  unfold valueTurn resume
  split_ifs
  · simp [follow, emits]
  · rfl

theorem follow_closeTurn (s : Bytes) (i a : ℕ) (b : Bracket) (N : List Bracket) :
    follow s i a (closeTurn b (b :: N)) =
      emits [⟨b.closeTok, i, 1⟩] (resume N (s.drop 1) (i + 1) (a - 1)) := by
  simp only [closeTurn, if_true, resume]
  split_ifs
  · simp [follow, emits]
  · rfl

theorem follow_openTurn {N : List Bracket} (hN : N.length < mjsonMaxDepth) (s : Bytes) (i a : ℕ)
    (b : Bracket) (e : Expecting) :
    follow s i a (openTurn b N e) =
      emits [⟨b.openTok, i, 1⟩] (scan (s.drop 1) (i + 1) (a - 1) (b :: N) e) := by
  simp only [openTurn, hN.not_ge, if_false, follow]

theorem scan_blanks {w : Bytes} (hw : IsBlank w) (s : Bytes) (i a : ℕ) (N : List Bracket)
    (e : Expecting) : scan (w ++ s) i (w.length + a) N e = scan s (i + w.length) a N e := by
  induction w generalizing i with
  | nil => simp
  | cons c w ih =>
      have hc := hw c (by simp)
      have hw' : IsBlank w := fun c' h' => hw c' (by simp [h'])
      rw [List.cons_append, List.length_cons, show w.length + 1 + a = w.length + a + 1 by omega,
        scan_blank hc, ih hw']
      congr 1
      omega

/-! ### Strings -/

theorem mjsonPassString_escape {c : UInt8} (hc : (mjsonEscOf c).isSome = true) (s : Bytes)
    (len : ℕ) :
    mjsonPassString (backslash :: c :: s) (len + 2) = (mjsonPassString s len).map (· + 2) := by
  rw [mjsonPassString.eq_def]
  simp [hc]

theorem mjsonPassString_plain {c : UInt8} {s : Bytes}
    (hesc : c = backslash → (mjsonEscOf (s.headD nul)).isSome = false) (hnul : c ≠ nul)
    (hquote : c ≠ quote) (len : ℕ) :
    mjsonPassString (c :: s) (len + 1) = (mjsonPassString s len).map (· + 1) := by
  rw [mjsonPassString.eq_def]
  have h : ¬(c = backslash ∧ 0 < len ∧ (mjsonEscOf (s.headD nul)).isSome = true) := by
    rintro ⟨hc, -, h⟩
    rw [hesc hc] at h
    cases h
  simp only [h, hnul, hquote, if_false]

theorem mjsonPassString_quote (s : Bytes) (len : ℕ) :
    mjsonPassString (quote :: s) (len + 1) = some 0 := by
  rw [mjsonPassString.eq_def]
  have hback : quote ≠ backslash := by decide
  have hnul : quote ≠ nul := by decide
  simp only [hback, hnul, false_and, if_false, if_true]

theorem headD_append_quote (raw t t' : Bytes) :
    (raw ++ quote :: t).headD nul = (raw ++ quote :: t').headD nul := by
  cases raw <;> rfl

/-- The runs that find the closing quote: there, behind an escape or behind another byte. -/
theorem mjsonPassString_induction {motive : Bytes → ℕ → ℕ → Prop}
    (found : ∀ s len, motive (quote :: s) (len + 1) 0)
    (escape : ∀ c s len m, (mjsonEscOf c).isSome = true → motive s len m →
      motive (backslash :: c :: s) (len + 2) (m + 2))
    (plain : ∀ c s len m, ¬(c = backslash ∧ 0 < len ∧ (mjsonEscOf (s.headD nul)).isSome = true) →
      c ≠ nul → c ≠ quote → motive s len m → motive (c :: s) (len + 1) (m + 1))
    {s : Bytes} {len n : ℕ} (h : mjsonPassString s len = some n) : motive s len n := by
  induction s, len using mjsonPassString.induct generalizing n with
  | case1 s => simp [mjsonPassString] at h
  | case2 n => simp [mjsonPassString] at h
  | case3 c c' s' len hesc ih =>
      obtain ⟨rfl, -, hc'⟩ := hesc
      rw [List.headD_cons] at hc'
      rw [mjsonPassString_escape hc', Option.map_eq_some_iff] at h
      obtain ⟨m, hm, rfl⟩ := h
      exact escape c' s' len m hc' (ih hm)
  | case4 c s len hesc hno =>
      rw [mjsonPassString.eq_def] at h
      simp only [hesc, and_self, if_true] at h
      cases s with
      | nil => simp at h
      | cons c' s' =>
          cases len with
          | zero => simp at hesc
          | succ len => exact (hno c' s' len rfl rfl).elim
  | case5 s len hesc =>
      have hback : nul ≠ backslash := by decide
      rw [mjsonPassString.eq_def] at h
      simp only [hback, false_and, if_false, if_true, reduceCtorEq] at h
  | case6 s len hesc hnul =>
      rw [mjsonPassString_quote, Option.some.injEq] at h
      subst h
      exact found s len
  | case7 c s len hesc hnul hquote ih =>
      rw [mjsonPassString.eq_def] at h
      simp only [hesc, hnul, hquote, if_false, Option.map_eq_some_iff] at h
      obtain ⟨m, hm, rfl⟩ := h
      exact plain c s len m hesc hnul hquote (ih hm)

/-- Where a string ends depends neither on what follows it nor on the length given. -/
theorem mjsonPassString_some {s : Bytes} {len n : ℕ} (h : mjsonPassString s len = some n) :
    n < len ∧ ∃ raw t, s = raw ++ quote :: t ∧ raw.length = n ∧
      ∀ t' len', n < len' → mjsonPassString (raw ++ quote :: t') len' = some n := by
  refine mjsonPassString_induction (motive := fun s len n => n < len ∧ ∃ raw t,
    s = raw ++ quote :: t ∧ raw.length = n ∧
      ∀ t' len', n < len' → mjsonPassString (raw ++ quote :: t') len' = some n) ?_ ?_ ?_ h
  · intro s len
    refine ⟨Nat.succ_pos _, [], s, rfl, rfl, ?_⟩
    intro t' len' hlen
    obtain ⟨k, rfl⟩ : ∃ k, len' = k + 1 := ⟨len' - 1, by omega⟩
    exact mjsonPassString_quote t' k
  · intro c s len m hc ih
    obtain ⟨hlt, raw, t, rfl, rfl, hlocal⟩ := ih
    refine ⟨by omega, backslash :: c :: raw, t, rfl, rfl, ?_⟩
    intro t' len' hlen
    obtain ⟨k, rfl⟩ : ∃ k, len' = k + 2 := ⟨len' - 2, by omega⟩
    rw [List.cons_append, List.cons_append, mjsonPassString_escape hc, hlocal t' k (by omega),
      Option.map_some]
  · intro c s len m hesc hnul hquote ih
    obtain ⟨hlt, raw, t, rfl, rfl, hlocal⟩ := ih
    refine ⟨by omega, c :: raw, t, rfl, rfl, ?_⟩
    intro t' len' hlen
    obtain ⟨k, rfl⟩ : ∃ k, len' = k + 1 := ⟨len' - 1, by omega⟩
    -- the byte behind a backslash is the same whatever follows the quote
    have hplain : c = backslash → (mjsonEscOf ((raw ++ quote :: t').headD nul)).isSome = false := by
      intro hc
      rw [headD_append_quote raw t' t, ← Bool.not_eq_true]
      exact fun h' => hesc ⟨hc, by omega, h'⟩
    rw [List.cons_append, mjsonPassString_plain hplain hnul hquote, hlocal t' k (by omega),
      Option.map_some]

/-- What may stand in a text that `mjson` accepts. -/
def mjsonLexicon : Lexicon where
  number raw := (∃ c s, raw = c :: s ∧ (c = minus ∨ isDigit c = true)) ∧
    (strtod raw).2 = raw.length
  string raw := mjsonPassString (raw ++ [quote]) (raw.length + 1) = some raw.length
  trailingComma := True

instance : DecidablePred mjsonLexicon.number
  | [] => isFalse (by rintro ⟨⟨c, s, h, -⟩, -⟩; cases h)
  | c :: s =>
      decidable_of_iff ((c = minus ∨ isDigit c = true) ∧ (strtod (c :: s)).2 = (c :: s).length)
        ⟨fun h => ⟨⟨c, s, rfl, h.1⟩, h.2⟩, by rintro ⟨⟨c', s', heq, h⟩, hlen⟩; cases heq; exact ⟨h, hlen⟩⟩

instance : DecidablePred mjsonLexicon.string := fun raw =>
  inferInstanceAs (Decidable (mjsonPassString (raw ++ [quote]) (raw.length + 1) = _))

instance : Decidable mjsonLexicon.trailingComma := inferInstanceAs (Decidable True)

theorem mjsonPassString_raw {raw : Bytes} (h : mjsonLexicon.string raw) (t : Bytes) (a : ℕ) :
    mjsonPassString (raw ++ quote :: t) (raw.length + 1 + a) = some raw.length := by
  obtain ⟨-, raw', t', heq, hlen, hlocal⟩ := mjsonPassString_some h
  obtain ⟨rfl, -⟩ := List.append_inj heq hlen.symm
  exact hlocal t _ (by omega)

/-! ### Reading a tree -/

def Json.Label.events {b : Bracket} : Label b → ℕ → List Event
  | .key raw w _, i => [⟨.key, i, raw.length + 2⟩, ⟨.colon, i + (raw.length + 2) + w.length, 1⟩]
  | .element, _ => []

def Json.Phrase.events {p : Part} : Phrase p → ℕ → List Event
  | .true, i => [⟨.true, i, 4⟩]
  | .false, i => [⟨.false, i, 5⟩]
  | .null, i => [⟨.null, i, 4⟩]
  | .number raw, i => [⟨.number, i, raw.length⟩]
  | .string raw, i => [⟨.string, i, raw.length + 2⟩]
  | .node b items, i =>
      ⟨b.openTok, i, 1⟩ :: (items.events (i + 1) ++ [⟨b.closeTok, i + 1 + items.text.length, 1⟩])
  | .nil _, _ => []
  | .item w label v rest, i =>
      let j := i + w.length
      let k := j + label.text.length
      label.events j ++ (v.events k ++ rest.events (k + v.text.length))
  | .stop _, _ => []
  | .more w items, i => ⟨.comma, i + w.length, 1⟩ :: items.events (i + w.length + 1)

def Bracket.first : Bracket → Expecting
  | .curly => .key
  | .square => .value

section

variable (s : Bytes) (i a : ℕ) (N : List Bracket)

theorem valueCase_true : valueCase (ascii "true" ++ s) (4 + a) N = valueTurn N .true 4 := by
  have htext : ascii "true" = [116, 114, 117, 101] := by decide
  simp +decide [valueCase, htext]

theorem valueCase_null : valueCase (ascii "null" ++ s) (4 + a) N = valueTurn N .null 4 := by
  have htext : ascii "null" = [110, 117, 108, 108] := by decide
  have htrue : ascii "true" = [116, 114, 117, 101] := by decide
  simp +decide [valueCase, htext, htrue]

theorem valueCase_false : valueCase (ascii "false" ++ s) (5 + a) N = valueTurn N .false 5 := by
  have htext : ascii "false" = [102, 97, 108, 115, 101] := by decide
  have htrue : ascii "true" = [116, 114, 117, 101] := by decide
  have hnull : ascii "null" = [110, 117, 108, 108] := by decide
  simp +decide [valueCase, htext, htrue, hnull]

theorem valueCase_number {c : UInt8} (hc : c = minus ∨ isDigit c = true) :
    valueCase (c :: s) a N = valueTurn N .number (strtod (c :: s)).2 := by
  have htrue : ascii "true" = [116, 114, 117, 101] := by decide
  have hnull : ascii "null" = [110, 117, 108, 108] := by decide
  have hfalse : ascii "false" = [102, 97, 108, 115, 101] := by decide
  have hne : c ≠ lbrace ∧ c ≠ lbracket ∧ c ≠ rbracket ∧ c ≠ 116 ∧ c ≠ 110 ∧ c ≠ 102 := by
    unfold isDigit at hc
    grind
  obtain ⟨h1, h2, h3, h4, h5, h6⟩ := hne
  simp +decide [valueCase, htrue, hnull, hfalse, h1, h2, h3, h4.symm, h5.symm, h6.symm, hc]

theorem valueCase_string {raw : Bytes} (hraw : mjsonLexicon.string raw) :
    valueCase (quoted raw ++ s) (raw.length + 2 + a) N = valueTurn N .string (raw.length + 2) := by
  have htrue : ascii "true" = [116, 114, 117, 101] := by decide
  have hnull : ascii "null" = [110, 117, 108, 108] := by decide
  have hfalse : ascii "false" = [102, 97, 108, 115, 101] := by decide
  have hpass := mjsonPassString_raw hraw s a
  simp +decide [valueCase, htrue, hnull, hfalse, quoted, hpass, isDigit]

theorem valueCase_open (b : Bracket) :
    valueCase (b.openByte :: s) a N = openTurn b N b.first := by
  cases b <;> simp +decide [valueCase, Bracket.openByte, Bracket.first]

theorem scan_scalar {s : Bytes} {tok : Tok} {text : Bytes} (hne : text ≠ [])
    (hwhite : isWhitespace ((text ++ s).headD nul) = false)
    (hturn : valueCase (text ++ s) (text.length + a) N = valueTurn N tok text.length) :
    scan (text ++ s) i (text.length + a) N .value =
      emits [⟨tok, i, text.length⟩] (resume N s (i + text.length) a) := by
  have hpos : text.length + a ≠ 0 := by
    have := List.length_pos_of_ne_nil hne
    omega
  rw [scan_turn hpos hwhite]
  simp only [turn, hturn, follow_valueTurn, List.drop_left, Nat.add_sub_cancel_left]

theorem scan_label {b : Bracket} {label : Label b} (hwf : label.WF mjsonLexicon) :
    scan (label.text ++ s) i (label.text.length + a) (b :: N) b.first =
      emits (label.events i) (scan s (i + label.text.length) a (b :: N) .value) := by
  cases label with
  | element => simp [Label.text, Label.events, Bracket.first, emits]
  | key raw w w' =>
      obtain ⟨hraw, hw, hw'⟩ := hwf
      have hpass := mjsonPassString_raw hraw (w ++ colon :: (w' ++ s))
        (w.length + (w'.length + 1 + a))
      have hkey : keyCase (quoted raw ++ (w ++ colon :: (w' ++ s)))
          (raw.length + 2 + (w.length + (w'.length + 1 + a))) (.curly :: N) =
          .next .key (raw.length + 2) (.curly :: N) .colon := by
        simp +decide [keyCase, quoted, hpass]
      have hwhite : isWhitespace
          ((quoted raw ++ (w ++ colon :: (w' ++ s))).headD nul) = false := rfl
      have hlen : (quoted raw).length = raw.length + 2 := by simp [quoted]
      have htext : (Label.key raw w w').text ++ s =
          quoted raw ++ (w ++ colon :: (w' ++ s)) := by simp [Label.text]
      have htextlen : (Label.key raw w w').text.length + a =
          raw.length + 2 + (w.length + (w'.length + 1 + a)) := by
        simp [Label.text, hlen]
        omega
      rw [htext, htextlen, scan_turn (by omega) hwhite]
      simp only [Bracket.first, turn, hkey, follow]
      rw [← hlen, List.drop_left, Nat.add_sub_cancel_left, scan_blanks hw,
        scan_turn (by omega) rfl]
      simp only [turn, colonCase, List.headD_cons, if_true, follow, emits_emits]
      rw [List.drop_one, List.tail_cons, show w'.length + 1 + a - 1 = w'.length + a by omega,
        scan_blanks hw']
      simp only [Label.events, Label.text, List.length_append, List.length_cons, hlen]
      rw [show i + (raw.length + 2) + w.length + 1 + w'.length =
        i + (raw.length + 2 + (w.length + (w'.length + 1))) by omega]
      rfl

theorem scan_close {s : Bytes} (b : Bracket) {e : Expecting}
    (he : e = b.first ∨ e = .commaOrEoo) :
    scan (b.closeByte :: s) i (a + 1) (b :: N) e =
      emits [⟨b.closeTok, i, 1⟩] (resume N s (i + 1) a) := by
  have hwhite : isWhitespace ((b.closeByte :: s).headD nul) = false := by cases b <;> rfl
  have hturn : turn (b.closeByte :: s) (a + 1) (b :: N) e = closeTurn b (b :: N) := by
    rcases he with rfl | rfl
    · cases b <;> simp +decide [turn, keyCase, valueCase, Bracket.closeByte, Bracket.first]
    · cases b <;> simp +decide [turn, commaOrEooCase, Bracket.closeByte]
  rw [scan_turn (Nat.succ_ne_zero a) hwhite, hturn, follow_closeTurn]
  simp

theorem scan_comma {s : Bytes} (b : Bracket) :
    scan (comma :: s) i (a + 1) (b :: N) .commaOrEoo =
      emits [⟨.comma, i, 1⟩] (scan s (i + 1) a (b :: N) b.first) := by
  rw [scan_turn (Nat.succ_ne_zero a) rfl]
  cases b <;> simp +decide [turn, commaOrEooCase, follow, Bracket.first]

end

section

variable (s : Bytes) (i a : ℕ) (N : List Bracket)

/-- The first token of an object or an array. -/
theorem scan_node (b : Bracket) (items : Phrase (.items b)) :
    scan ((Phrase.node b items).text ++ s) i ((Phrase.node b items).text.length + a) N .value =
      follow (b.openByte :: (items.text ++ b.closeByte :: s)) i (items.text.length + (a + 1) + 1)
        (openTurn b N b.first) := by
  have hwhite : isWhitespace ((b.openByte :: (items.text ++ b.closeByte :: s)).headD nul) =
    false := by cases b <;> rfl
  have htext : (Phrase.node b items).text ++ s =
    b.openByte :: (items.text ++ b.closeByte :: s) := by simp [Phrase.text]
  have hlen : (Phrase.node b items).text.length = items.text.length + 2 := by simp [Phrase.text]
  rw [htext, hlen, show items.text.length + 2 + a = items.text.length + (a + 1) + 1 by omega,
    scan_turn (Nat.succ_ne_zero _) hwhite, turn, valueCase_open]

/-- Up to the value of an item. -/
theorem scan_item {b : Bracket} {w : Bytes} (hw : IsBlank w) {label : Label b}
    (hlabel : label.WF mjsonLexicon) (v : Value) (rest : Phrase (.rest b)) :
    scan ((Phrase.item w label v rest).text ++ b.closeByte :: s) i
        ((Phrase.item w label v rest).text.length + (a + 1)) (b :: N) b.first =
      emits (label.events (i + w.length))
        (scan (v.text ++ (rest.text ++ b.closeByte :: s)) (i + w.length + label.text.length)
          (v.text.length + (rest.text.length + (a + 1))) (b :: N) .value) := by
  have htext : (Phrase.item w label v rest).text ++ b.closeByte :: s =
      w ++ (label.text ++ (v.text ++ (rest.text ++ b.closeByte :: s))) := by simp [Phrase.text]
  have hlen : (Phrase.item w label v rest).text.length + (a + 1) =
      w.length + (label.text.length + (v.text.length + (rest.text.length + (a + 1)))) := by
    simp only [Phrase.text, List.length_append]
    omega
  rw [htext, hlen, scan_blanks hw, scan_label _ _ _ _ hlabel]

/-- Up to the next item. -/
theorem scan_more {b : Bracket} {w : Bytes} (hw : IsBlank w) (items : Phrase (.items b)) :
    scan ((Phrase.more w items).text ++ b.closeByte :: s) i
        ((Phrase.more w items).text.length + (a + 1)) (b :: N) .commaOrEoo =
      emits [⟨.comma, i + w.length, 1⟩]
        (scan (items.text ++ b.closeByte :: s) (i + w.length + 1) (items.text.length + (a + 1))
          (b :: N) b.first) := by
  have htext : (Phrase.more w items).text ++ b.closeByte :: s =
      w ++ comma :: (items.text ++ b.closeByte :: s) := by simp [Phrase.text]
  have hlen : (Phrase.more w items).text.length + (a + 1) =
      w.length + (items.text.length + (a + 1) + 1) := by
    simp only [Phrase.text, List.length_append, List.length_cons]
    omega
  rw [htext, hlen, scan_blanks hw, scan_comma]

end

/-- The tokenizer reads a part of a text as the tree says, and goes on after it. -/
def Reads : {p : Part} → Phrase p → Prop
  | .value, t => ∀ (s : Bytes) (i a : ℕ) (N : List Bracket),
      t.WF mjsonLexicon → t.depth + N.length ≤ mjsonMaxDepth →
      ((∃ raw, t = .number raw) → ∀ d ∈ s.head?, Stops d) →
      scan (t.text ++ s) i (t.text.length + a) N .value =
        emits (t.events i) (resume N s (i + t.text.length) a)
  | .items b, t => ∀ (s : Bytes) (i a : ℕ) (N : List Bracket),
      t.WF mjsonLexicon → t.depth + N.length < mjsonMaxDepth →
      scan (t.text ++ b.closeByte :: s) i (t.text.length + (a + 1)) (b :: N) b.first =
        emits (t.events i ++ [⟨b.closeTok, i + t.text.length, 1⟩])
          (resume N s (i + t.text.length + 1) a)
  | .rest b, t => ∀ (s : Bytes) (i a : ℕ) (N : List Bracket),
      t.WF mjsonLexicon → t.depth + N.length < mjsonMaxDepth →
      scan (t.text ++ b.closeByte :: s) i (t.text.length + (a + 1)) (b :: N) .commaOrEoo =
        emits (t.events i ++ [⟨b.closeTok, i + t.text.length, 1⟩])
          (resume N s (i + t.text.length + 1) a)

theorem stops_of_blank {d : UInt8} (h : isWhitespace d = true) : Stops d := by
  rw [stops_iff]
  unfold isWhitespace at h
  unfold isNumberByte isDigit isAlpha
  simp only [Bool.or_eq_true, beq_iff_eq] at h
  rcases h with ((h | h) | h) | h <;> subst h <;> decide

theorem stops_closeByte (b : Bracket) : Stops b.closeByte := by
  rw [stops_iff]
  cases b <;> decide

/-- What follows an item cannot be taken for a part of a number. -/
theorem rest_head_stops {b : Bracket} {rest : Phrase (.rest b)} (hwf : rest.WF mjsonLexicon)
    (s : Bytes) : ∀ d ∈ (rest.text ++ b.closeByte :: s).head?, Stops d := by
  intro d hd
  have hcomma : Stops comma := by
    rw [stops_iff]
    decide
  cases rest with
  | stop w =>
      cases w with
      | nil =>
          simp only [Phrase.text, List.nil_append, List.head?_cons, Option.mem_some_iff] at hd
          exact hd ▸ stops_closeByte b
      | cons c w =>
          simp only [Phrase.text, List.cons_append, List.head?_cons, Option.mem_some_iff] at hd
          exact hd ▸ stops_of_blank (hwf c (by simp))
  | more w items =>
      cases w with
      | nil =>
          simp only [Phrase.text, List.nil_append, List.cons_append, List.head?_cons,
            Option.mem_some_iff] at hd
          exact hd ▸ hcomma
      | cons c w =>
          simp only [Phrase.text, List.cons_append, List.head?_cons, Option.mem_some_iff] at hd
          exact hd ▸ stops_of_blank (hwf.1 c (by simp))

theorem isDigit_not_white {c : UInt8} (h : c = minus ∨ isDigit c = true) :
    isWhitespace c = false ∧ isSpace c = false := by
  unfold isDigit at h
  unfold isWhitespace isSpace
  grind

theorem strtod_number {raw : Bytes} (hraw : mjsonLexicon.number raw) {s : Bytes}
    (hs : ∀ d ∈ s.head?, Stops d) : strtod (raw ++ s) = strtod raw := by
  obtain ⟨⟨c, s', rfl, hc⟩, -⟩ := hraw
  cases s with
  | nil => rw [List.append_nil]
  | cons d t =>
      exact strtod_append (hs d rfl) t ⟨c, s', rfl, (isDigit_not_white hc).2⟩

theorem reads {p : Part} (t : Phrase p) : Reads t := by
  induction t with
  | true =>
      intro s i a N _ _ _
      exact scan_scalar i a N (by decide) rfl (valueCase_true s a N)
  | false =>
      intro s i a N _ _ _
      exact scan_scalar i a N (by decide) rfl (valueCase_false s a N)
  | null =>
      intro s i a N _ _ _
      exact scan_scalar i a N (by decide) rfl (valueCase_null s a N)
  | number raw =>
      intro s i a N hwf _ hs
      have hread := strtod_number hwf (hs ⟨raw, rfl⟩)
      obtain ⟨⟨c, s', rfl, hc⟩, hlen⟩ := hwf
      refine scan_scalar i a N (List.cons_ne_nil c s') (isDigit_not_white hc).1 ?_
      rw [Phrase.text, List.cons_append, valueCase_number _ _ _ hc, ← List.cons_append, hread, hlen]
  | string raw =>
      intro s i a N hwf _ _
      have hlen : (quoted raw).length = raw.length + 2 := by simp [quoted]
      have hturn : valueCase (quoted raw ++ s) ((quoted raw).length + a) N =
          valueTurn N .string (quoted raw).length := by
        rw [hlen]
        exact valueCase_string s a N hwf
      have h := scan_scalar i a N (by simp [quoted]) rfl hturn
      simpa only [Phrase.text, Phrase.events, hlen] using h
  | node b items ih =>
      intro s i a N hwf hdepth _
      simp only [Phrase.depth] at hdepth
      have hitems := ih s (i + 1) a N hwf (by omega)
      have hlen : (Phrase.node b items).text.length = items.text.length + 2 := by simp [Phrase.text]
      rw [scan_node, follow_openTurn (by omega), List.drop_one, List.tail_cons, Nat.add_sub_cancel,
        hitems, emits_emits, hlen]
      simp only [Phrase.events, List.singleton_append]
      rw [show i + 1 + items.text.length + 1 = i + (items.text.length + 2) by omega]
  | nil w =>
      intro s i a N hwf _
      rw [Phrase.text, scan_blanks hwf, scan_close _ _ _ _ (.inl rfl)]
      rfl
  | @item b w label v rest ihv ihrest =>
      intro s i a N hwf hdepth
      obtain ⟨hw, hlabel, hv, hrest⟩ := hwf
      simp only [Phrase.depth] at hdepth
      -- the value is read with the rest and the closing bracket still to come
      have hreadv := ihv (rest.text ++ b.closeByte :: s) (i + w.length + label.text.length)
        (rest.text.length + (a + 1)) (b :: N) hv (by simp only [List.length_cons]; omega)
        (fun _ => rest_head_stops hrest s)
      have hreadrest := ihrest s (i + w.length + label.text.length + v.text.length) a N hrest
        (by omega)
      have hlen : (Phrase.item w label v rest).text.length = w.length + (label.text.length +
          (v.text.length + rest.text.length)) := by simp [Phrase.text]
      rw [scan_item _ _ _ _ hw hlabel, hreadv, resume, if_neg (List.cons_ne_nil _ _), hreadrest, hlen]
      simp only [emits_emits, Phrase.events, List.append_assoc, ← Nat.add_assoc]
  | stop w =>
      intro s i a N hwf _
      rw [Phrase.text, scan_blanks hwf, scan_close _ _ _ _ (.inr rfl)]
      rfl
  | @more b w items ih =>
      intro s i a N hwf hdepth
      obtain ⟨hw, hitems, -⟩ := hwf
      have hread := ih s (i + w.length + 1) a N hitems hdepth
      have hlen : (Phrase.more w items).text.length = w.length + (items.text.length + 1) := by
        simp [Phrase.text]
      rw [scan_more _ _ _ _ hw, hread, hlen]
      simp only [emits_emits, Phrase.events, List.nil_append, List.cons_append]
      rw [show i + w.length + 1 + items.text.length = i + (w.length + (items.text.length + 1)) by
        omega]

def Overflows : {p : Part} → Phrase p → Prop
  | .value, t => ∀ (s : Bytes) (i a : ℕ) (N : List Bracket), t.WF mjsonLexicon →
      mjsonMaxDepth < t.depth + N.length → N.length ≤ mjsonMaxDepth →
      (scan (t.text ++ s) i (t.text.length + a) N .value).1 < 0
  | .items b, t => ∀ (s : Bytes) (i a : ℕ) (N : List Bracket), t.WF mjsonLexicon →
      mjsonMaxDepth ≤ t.depth + N.length → N.length < mjsonMaxDepth →
      (scan (t.text ++ b.closeByte :: s) i (t.text.length + (a + 1)) (b :: N) b.first).1 < 0
  | .rest b, t => ∀ (s : Bytes) (i a : ℕ) (N : List Bracket), t.WF mjsonLexicon →
      mjsonMaxDepth ≤ t.depth + N.length → N.length < mjsonMaxDepth →
      (scan (t.text ++ b.closeByte :: s) i (t.text.length + (a + 1)) (b :: N) .commaOrEoo).1 < 0

theorem overflows {p : Part} (t : Phrase p) : Overflows t := by
  induction t with
  | true => exact fun s i a N _ hdeep hN => by simp only [Phrase.depth] at hdeep; omega
  | false => exact fun s i a N _ hdeep hN => by simp only [Phrase.depth] at hdeep; omega
  | null => exact fun s i a N _ hdeep hN => by simp only [Phrase.depth] at hdeep; omega
  | number raw => exact fun s i a N _ hdeep hN => by simp only [Phrase.depth] at hdeep; omega
  | string raw => exact fun s i a N _ hdeep hN => by simp only [Phrase.depth] at hdeep; omega
  | nil w => exact fun s i a N _ hdeep hN => by simp only [Phrase.depth] at hdeep; omega
  | stop w => exact fun s i a N _ hdeep hN => by simp only [Phrase.depth] at hdeep; omega
  | node b items ih =>
      intro s i a N hwf hdeep hN
      simp only [Phrase.depth] at hdeep
      rw [scan_node]
      by_cases hroom : N.length < mjsonMaxDepth
      · rw [follow_openTurn hroom, emits_fst, List.drop_one, List.tail_cons, Nat.add_sub_cancel]
        exact ih s (i + 1) a N hwf (by omega) hroom
      · rw [openTurn, if_pos (not_lt.mp hroom)]
        exact (by decide : mjsonErrorTooDeep < 0)
  | @item b w label v rest ihv ihrest =>
      intro s i a N hwf hdeep hN
      obtain ⟨hw, hlabel, hv, hrest⟩ := hwf
      simp only [Phrase.depth] at hdeep
      rw [scan_item _ _ _ _ hw hlabel, emits_fst]
      by_cases hdeepv : mjsonMaxDepth ≤ v.depth + N.length
      · exact ihv _ _ _ (b :: N) hv (by rw [List.length_cons]; omega) (by rw [List.length_cons]; omega)
      · have hread := reads v (rest.text ++ b.closeByte :: s) (i + w.length + label.text.length)
          (rest.text.length + (a + 1)) (b :: N) hv (by simp only [List.length_cons]; omega)
          (fun _ => rest_head_stops hrest s)
        rw [hread, emits_fst, resume, if_neg (List.cons_ne_nil _ _)]
        exact ihrest s _ a N hrest (by omega) hN
  | @more b w items ih =>
      intro s i a N hwf hdeep hN
      obtain ⟨hw, hitems, -⟩ := hwf
      rw [scan_more _ _ _ _ hw, emits_fst]
      exact ih s _ a N hitems hdeep hN

/-- A text that starts, after blanks, with the text of an object or an array. -/
structure Denotes (s : Bytes) (len : ℕ) (v : Value) (i : ℕ) : Prop where
  wf : v.WF mjsonLexicon
  depth : v.depth ≤ mjsonMaxDepth
  node : ∃ b items, v = .node b items
  text : ∃ w t, IsBlank w ∧ w.length = i ∧ s = w ++ (v.text ++ t)
  len : i + v.text.length ≤ len

theorem Denotes.of_text {v : Value} (hwf : v.WF mjsonLexicon) (hdepth : v.depth ≤ mjsonMaxDepth)
    (hnode : ∃ b items, v = .node b items) : Denotes v.text v.text.length v 0 :=
  ⟨hwf, hdepth, hnode, ⟨[], [], nofun, rfl, by simp⟩, by simp⟩

/-- **Completeness.** On the text of a tree, `mjson` makes the calls of the tree. -/
theorem Denotes.mjson_eq {s : Bytes} {len i : ℕ} {v : Value} (h : Denotes s len v i) :
    mjson s len = (((i + v.text.length : ℕ) : ℤ), v.events i) := by
  obtain ⟨w, t, hw, rfl, rfl⟩ := h.text
  obtain ⟨b, items, rfl⟩ := h.node
  obtain ⟨a, rfl⟩ : ∃ a, len = w.length + ((Phrase.node b items).text.length + a) :=
    ⟨len - (w.length + (Phrase.node b items).text.length), by have := h.len; omega⟩
  have hread := reads (.node b items) t (0 + w.length) a [] h.wf (by simpa using h.depth)
    (by rintro ⟨raw, hraw⟩; cases hraw)
  rw [mjson_eq_scan, scan_blanks hw, hread]
  simp [resume, emits]

/-- `mjson` fails on a text that is nested too deep. -/
theorem mjson_overflow {s w t : Bytes} {len : ℕ} {v : Value} (hwf : v.WF mjsonLexicon)
    (hdeep : mjsonMaxDepth < v.depth) (hw : IsBlank w) (hs : s = w ++ (v.text ++ t))
    (hlen : w.length + v.text.length ≤ len) : (mjson s len).1 < 0 := by
  obtain ⟨a, rfl⟩ := Nat.exists_eq_add_of_le hlen
  subst hs
  rw [mjson_eq_scan, Nat.add_assoc, scan_blanks hw]
  exact overflows v t _ a [] hwf (by simpa using hdeep) (Nat.zero_le _)

/-- What `mjson` accepts is not nested too deep. -/
theorem depth_of_mjson {v : Value} (hwf : v.WF mjsonLexicon)
    (h : 0 ≤ (mjson v.text v.text.length).1) : v.depth ≤ mjsonMaxDepth := by
  by_contra hdeep
  have hover : (mjson v.text v.text.length).1 < 0 :=
    mjson_overflow (w := []) (t := []) hwf (not_le.mp hdeep)
      isBlank_nil (by simp) (by simp)
  exact absurd hover (not_lt.mpr h)

/-! ### Reading back a tree -/

def Parses : Part → Bytes → ℕ → ℕ → List Bracket → ℤ × List Event → Prop
  | .value, s, i, a, N, r => ∃ (v : Value) (t : Bytes) (c : ℕ), v.WF mjsonLexicon ∧
      v.depth + N.length ≤ mjsonMaxDepth ∧ s = v.text ++ t ∧ a = v.text.length + c ∧
      r = emits (v.events i) (resume N t (i + v.text.length) c)
  | .items b, s, i, a, N, r => ∃ (v : Phrase (.items b)) (t : Bytes) (c : ℕ),
      v.WF mjsonLexicon ∧ v.depth + N.length < mjsonMaxDepth ∧ s = v.text ++ b.closeByte :: t ∧
      a = v.text.length + (c + 1) ∧
      r = emits (v.events i ++ [⟨b.closeTok, i + v.text.length, 1⟩])
        (resume N t (i + v.text.length + 1) c)
  | .rest b, s, i, a, N, r => ∃ (v : Phrase (.rest b)) (t : Bytes) (c : ℕ),
      v.WF mjsonLexicon ∧ v.depth + N.length < mjsonMaxDepth ∧ s = v.text ++ b.closeByte :: t ∧
      a = v.text.length + (c + 1) ∧
      r = emits (v.events i ++ [⟨b.closeTok, i + v.text.length, 1⟩])
        (resume N t (i + v.text.length + 1) c)

theorem scan_skip {s : Bytes} {i a : ℕ} {N : List Bracket} {e : Expecting}
    (h : 0 ≤ (scan s i a N e).1) :
    ∃ w s' k, s = w ++ s' ∧ IsBlank w ∧ a = w.length + (k + 1) ∧
      isWhitespace (s'.headD nul) = false ∧ scan s i a N e = scan s' (i + w.length) (k + 1) N e := by
  induction a generalizing s i with
  | zero => cases h
  | succ a ih =>
      cases hs : isWhitespace (s.headD nul) with
      | false => exact ⟨[], s, a, rfl, nofun, by simp, hs, rfl⟩
      | true =>
          cases s with
          | nil => cases hs
          | cons c s =>
              rw [List.headD_cons] at hs
              rw [scan_blank hs] at h
              obtain ⟨w, s', k, rfl, hw, rfl, hs', heq⟩ := ih h
              refine ⟨c :: w, s', k, rfl, ?_, by simp; omega, hs', ?_⟩
              · intro c' hc'
                rcases List.mem_cons.mp hc' with rfl | hc'
                · exact hs
                · exact hw c' hc'
              · rw [scan_blank hs, heq, List.length_cons, Nat.add_assoc, Nat.add_comm 1]

theorem text_pos {v : Value} (hv : v.WF mjsonLexicon) : 0 < v.text.length := by
  cases v with
  | true => decide
  | false => decide
  | null => decide
  | number raw =>
      obtain ⟨⟨c, s, rfl, -⟩, -⟩ := hv
      exact Nat.succ_pos _
  | string raw => exact Nat.succ_pos _
  | node b items => exact Nat.succ_pos _

/-- After a value inside brackets the text goes on with a byte that ends a number. -/
theorem resume_head {N : List Bracket} (hN : N ≠ []) {s : Bytes} {i a : ℕ}
    (h : 0 ≤ (resume N s i a).1) : ∃ d t, s = d :: t ∧ Stops d := by
  rw [resume, if_neg hN] at h
  obtain ⟨w, s', k, rfl, hw, rfl, hs', heq⟩ := scan_skip h
  cases w with
  | cons c w => exact ⟨c, w ++ s', rfl, stops_of_blank (hw c (by simp))⟩
  | nil =>
      rw [heq, scan_turn (Nat.succ_ne_zero k) hs'] at h
      obtain ⟨top, outer, rfl⟩ := List.exists_cons_of_ne_nil hN
      cases s' with
      | nil => cases h
      | cons d t =>
          have hd : d = comma ∨ d = rbracket ∨ d = rbrace := by
            by_contra hd
            simp only [not_or] at hd
            simp only [turn, commaOrEooCase, List.headD_cons, hd.1, hd.2.1, hd.2.2, if_false] at h
            cases h
          refine ⟨d, t, rfl, ?_⟩
          rw [stops_iff]
          rcases hd with rfl | rfl | rfl <;> decide

/-- The items after an opening bracket are read back from any shorter stretch. -/
def ItemsParse (a : ℕ) : Prop :=
  ∀ (s : Bytes) (i a' : ℕ) (b : Bracket) (N : List Bracket), a' < a → N.length < mjsonMaxDepth →
    0 ≤ (scan s i a' (b :: N) b.first).1 → Parses (.items b) s i a' N (scan s i a' (b :: N) b.first)

theorem node_parses {b : Bracket} {s : Bytes} {i a : ℕ} {N : List Bracket}
    (ih : ItemsParse (a + 1)) (h : 0 ≤ (scan (b.openByte :: s) i (a + 1) N .value).1) :
    Parses .value (b.openByte :: s) i (a + 1) N (scan (b.openByte :: s) i (a + 1) N .value) := by
  have hwhite : isWhitespace ((b.openByte :: s).headD nul) = false := by cases b <;> rfl
  rw [scan_turn (Nat.add_one_ne_zero a) hwhite, turn, valueCase_open] at h ⊢
  by_cases hN : N.length < mjsonMaxDepth
  · rw [follow_openTurn hN, List.drop_one, List.tail_cons, Nat.add_sub_cancel] at h ⊢
    obtain ⟨items, t, c, hwf, hdepth, rfl, rfl, heq⟩ := ih s (i + 1) a b N (Nat.lt_succ_self a) hN h
    refine ⟨.node b items, t, c, hwf, ?_, ?_, ?_, ?_⟩
    · simp only [Phrase.depth]
      omega
    · simp [Phrase.text]
    · simp only [Phrase.text, List.length_cons, List.length_append, List.length_nil]
      omega
    · rw [heq, emits_emits]
      simp only [Phrase.events, Phrase.text, List.length_cons, List.length_append, List.length_nil,
        List.singleton_append]
      rw [show i + 1 + items.text.length + 1 = i + (items.text.length + (0 + 1) + 1) by omega]
  · rw [openTurn, if_pos (Nat.not_lt.mp hN)] at h
    cases h

/-- A value that is not a bracket, from what its turn is. -/
theorem scalar_parses {v : Value} (tok : Tok) {t : Bytes} {i a : ℕ} {N : List Bracket}
    (hwf : v.WF mjsonLexicon) (hdepth : v.depth = 0) (hN : N.length ≤ mjsonMaxDepth)
    (hlen : v.text.length ≤ a) (hevents : v.events i = [⟨tok, i, v.text.length⟩])
    {r : ℤ × List Event} (hr : r = follow (v.text ++ t) i a (valueTurn N tok v.text.length)) :
    Parses .value (v.text ++ t) i a N r := by
  refine ⟨v, t, a - v.text.length, hwf, by omega, rfl, by omega, ?_⟩
  rw [hr, follow_valueTurn, List.drop_left, hevents]

theorem prefix_drop {text s : Bytes} (h : text <+: s) : s = text ++ s.drop text.length := by
  obtain ⟨t, rfl⟩ := h
  rw [List.drop_left]

theorem number_parses {c : UInt8} {s : Bytes} {i a : ℕ} {N : List Bracket}
    (hc : c = minus ∨ isDigit c = true) (hN : N ≠ []) (hdepth : N.length ≤ mjsonMaxDepth)
    (h : 0 ≤ (follow (c :: s) i a (valueTurn N .number (strtod (c :: s)).2)).1) :
    Parses .value (c :: s) i a N (follow (c :: s) i a (valueTurn N .number (strtod (c :: s)).2)) := by
  have hlen := strtod_length_le (c :: s)
  generalize hn : (strtod (c :: s)).2 = n at h hlen ⊢
  have hres := h
  rw [follow_valueTurn, emits_fst] at hres
  have hna : n ≤ a := by
    by_contra hlt
    rw [resume, if_neg hN, Nat.sub_eq_zero_of_le (by omega)] at hres
    cases hres
  obtain ⟨d, t, hdrop, hd⟩ := resume_head hN hres
  have hpos : 0 < n := by
    rcases Nat.eq_zero_or_pos n with rfl | hpos
    · rw [List.drop_zero, List.cons.injEq] at hdrop
      rw [← hdrop.1] at hd
      rcases hc with rfl | hc
      · exact (hd.notSign.1 rfl).elim
      · rw [hd.notDigit] at hc
        cases hc
    · exact hpos
  obtain ⟨m, rfl⟩ : ∃ m, n = m + 1 := ⟨n - 1, by omega⟩
  have htake : (c :: s).take (m + 1) = c :: s.take m := rfl
  have hraw : mjsonLexicon.number ((c :: s).take (m + 1)) := by
    refine ⟨⟨c, s.take m, htake, hc⟩, ?_⟩
    have hlocal := strtod_append hd t ⟨c, s.take m, htake, (isDigit_not_white hc).2⟩
    rw [← hdrop, List.take_append_drop] at hlocal
    rw [← hlocal, hn, List.length_take, Nat.min_eq_left hlen]
  have htext : (Phrase.number ((c :: s).take (m + 1))).text.length = m + 1 := by
    rw [Phrase.text, List.length_take, Nat.min_eq_left hlen]
  have hparse := scalar_parses (v := .number ((c :: s).take (m + 1))) .number
    (t := (c :: s).drop (m + 1)) (i := i) (a := a) (N := N) hraw rfl hdepth (by omega) rfl rfl
  rwa [htext, Phrase.text, List.take_append_drop] at hparse

theorem string_parses {s : Bytes} {i a n : ℕ} {N : List Bracket}
    (hpass : mjsonPassString s (a - 1) = some n) (hdepth : N.length ≤ mjsonMaxDepth) :
    Parses .value (quote :: s) i a N (follow (quote :: s) i a (valueTurn N .string (n + 2))) := by
  obtain ⟨hlt, raw, t, rfl, rfl, hlocal⟩ := mjsonPassString_some hpass
  have htext : (Phrase.string raw).text.length = raw.length + 2 := by simp [Phrase.text, quoted]
  have hparse := scalar_parses (v := .string raw) .string (t := t) (i := i) (a := a)
    (N := N) (hlocal [] _ (Nat.lt_succ_self _)) rfl hdepth (by omega)
    (by rw [htext]; rfl) rfl
  rw [htext] at hparse
  simpa [Phrase.text, quoted] using hparse

theorem valueCase_cons (c : UInt8) (s : Bytes) (a : ℕ) (N : List Bracket) :
    valueCase (c :: s) a N =
      if c = lbrace then openTurn .curly N .key
      else if c = lbracket then openTurn .square N .value
      else if c = rbracket ∧ N ≠ [] then closeTurn .square N
      else if ascii "true" <+: c :: s ∧ 4 ≤ a then valueTurn N .true 4
      else if ascii "null" <+: c :: s ∧ 4 ≤ a then valueTurn N .null 4
      else if ascii "false" <+: c :: s ∧ 5 ≤ a then valueTurn N .false 5
      else if c = minus ∨ isDigit c = true then valueTurn N .number (strtod (c :: s)).2
      else if c = quote then
        match mjsonPassString s (a - 1) with
        | none => .error mjsonErrorInvalidInput
        | some n => valueTurn N .string (n + 2)
      else .error mjsonErrorInvalidInput := rfl

theorem value_parses {s : Bytes} {i a : ℕ} {N : List Bracket} (ih : ItemsParse a) (ha : a ≠ 0)
    (hwhite : isWhitespace (s.headD nul) = false) (hs : s.headD nul ≠ rbracket) (hN : N ≠ [])
    (hdepth : N.length ≤ mjsonMaxDepth) (h : 0 ≤ (scan s i a N .value).1) :
    Parses .value s i a N (scan s i a N .value) := by
  obtain ⟨a, rfl⟩ : ∃ k, a = k + 1 := ⟨a - 1, by omega⟩
  cases s with
  | nil =>
      rw [scan_turn (Nat.add_one_ne_zero a) hwhite] at h
      cases h
  | cons c s =>
      rw [List.headD_cons] at hs
      by_cases hcurly : c = lbrace
      · subst hcurly
        exact node_parses (b := .curly) ih h
      by_cases hsquare : c = lbracket
      · subst hsquare
        exact node_parses (b := .square) ih h
      rw [scan_turn (Nat.add_one_ne_zero a) hwhite] at h ⊢
      rw [turn, valueCase_cons, if_neg hcurly, if_neg hsquare, if_neg (fun hbr => hs hbr.1)] at h ⊢
      by_cases htrue : ascii "true" <+: c :: s ∧ 4 ≤ a + 1
      · rw [if_pos htrue, prefix_drop htrue.1]
        exact scalar_parses (v := .true) .true trivial rfl hdepth htrue.2 rfl rfl
      by_cases hnull : ascii "null" <+: c :: s ∧ 4 ≤ a + 1
      · rw [if_neg htrue, if_pos hnull, prefix_drop hnull.1]
        exact scalar_parses (v := .null) .null trivial rfl hdepth hnull.2 rfl rfl
      by_cases hfalse : ascii "false" <+: c :: s ∧ 5 ≤ a + 1
      · rw [if_neg htrue, if_neg hnull, if_pos hfalse, prefix_drop hfalse.1]
        exact scalar_parses (v := .false) .false trivial rfl hdepth hfalse.2 rfl rfl
      rw [if_neg htrue, if_neg hnull, if_neg hfalse] at h ⊢
      by_cases hnumber : c = minus ∨ isDigit c = true
      · rw [if_pos hnumber] at h ⊢
        exact number_parses hnumber hN hdepth h
      rw [if_neg hnumber] at h ⊢
      by_cases hquote : c = quote
      · subst hquote
        rw [if_pos rfl] at h ⊢
        cases hpass : mjsonPassString s (a + 1 - 1) with
        | none =>
            rw [hpass] at h
            cases h
        | some n => exact string_parses hpass hdepth
      · rw [if_neg hquote] at h
        cases h

def RestParse (a : ℕ) : Prop :=
  ∀ (s : Bytes) (i a' : ℕ) (b : Bracket) (N : List Bracket), a' < a → N.length < mjsonMaxDepth →
    0 ≤ (scan s i a' (b :: N) .commaOrEoo).1 →
    Parses (.rest b) s i a' N (scan s i a' (b :: N) .commaOrEoo)

/-- A value and what follows it. -/
theorem item_parses {b : Bracket} {s : Bytes} {i a : ℕ} {N : List Bracket} (ih : ItemsParse a)
    (ihrest : RestParse a) (ha : a ≠ 0) (hwhite : isWhitespace (s.headD nul) = false)
    (hs : s.headD nul ≠ rbracket) (hN : N.length < mjsonMaxDepth)
    (h : 0 ≤ (scan s i a (b :: N) .value).1) :
    ∃ (v : Value) (rest : Phrase (.rest b)) (t : Bytes) (c : ℕ), v.WF mjsonLexicon ∧
      rest.WF mjsonLexicon ∧ max v.depth rest.depth + N.length < mjsonMaxDepth ∧
      s = v.text ++ (rest.text ++ b.closeByte :: t) ∧
      a = v.text.length + (rest.text.length + (c + 1)) ∧
      scan s i a (b :: N) .value =
        emits (v.events i ++ (rest.events (i + v.text.length) ++
            [⟨b.closeTok, i + v.text.length + rest.text.length, 1⟩]))
          (resume N t (i + v.text.length + rest.text.length + 1) c) := by
  obtain ⟨v, t, c, hv, hdepth, rfl, rfl, heq⟩ :=
    value_parses ih ha hwhite hs (List.cons_ne_nil b N) hN h
  rw [heq, emits_fst, resume, if_neg (List.cons_ne_nil b N)] at h
  have hpos := text_pos hv
  obtain ⟨rest, t, c, hrest, hdepth', rfl, rfl, heq'⟩ := ihrest t _ c b N (by omega) hN h
  refine ⟨v, rest, t, c, hv, hrest, ?_, rfl, rfl, ?_⟩
  · simp only [List.length_cons] at hdepth
    omega
  · rw [heq, resume, if_neg (List.cons_ne_nil b N), heq', emits_emits]

theorem items_square {s : Bytes} {i a : ℕ} {N : List Bracket} (ih : ItemsParse a)
    (ihrest : RestParse a) (hN : N.length < mjsonMaxDepth)
    (h : 0 ≤ (scan s i a (.square :: N) .value).1) :
    Parses (.items .square) s i a N (scan s i a (.square :: N) .value) := by
  obtain ⟨w, s, k, rfl, hw, rfl, hwhite, heq⟩ := scan_skip h
  rw [heq] at h ⊢
  by_cases hclose : s.headD nul = rbracket
  · cases s with
    | nil => cases hclose
    | cons c t =>
        rw [List.headD_cons] at hclose
        subst hclose
        refine ⟨.nil w, t, k, hw, by simpa [Phrase.depth] using hN, rfl, rfl, ?_⟩
        exact scan_close (i + w.length) k N .square (.inl rfl)
  · obtain ⟨v, rest, t, c, hv, hrest, hdepth, rfl, hk, heq'⟩ :=
      item_parses (fun s i a' b N ha' => ih s i a' b N (by omega))
        (fun s i a' b N ha' => ihrest s i a' b N (by omega)) (Nat.add_one_ne_zero k) hwhite hclose
        hN h
    refine ⟨.item w .element v rest, t, c, ⟨hw, trivial, hv, hrest⟩, hdepth, ?_, ?_, ?_⟩
    · simp [Phrase.text, Label.text]
    · simp only [Phrase.text, Label.text, List.nil_append, List.length_append]
      omega
    · rw [heq']
      simp only [Phrase.events, Phrase.text, Label.text, Label.events, List.nil_append,
        List.length_append, List.length_nil, Nat.add_zero, List.append_assoc, Nat.add_assoc]

theorem label_parses {s : Bytes} {i k : ℕ} {N : List Bracket}
    (h : 0 ≤ (scan (quote :: s) i (k + 1) (.curly :: N) .key).1) :
    ∃ (label : Label .curly) (t : Bytes) (k' : ℕ), label.WF mjsonLexicon ∧
      quote :: s = label.text ++ t ∧ k + 1 = label.text.length + (k' + 1) ∧
      isWhitespace (t.headD nul) = false := by
  rw [scan_turn (Nat.add_one_ne_zero k) rfl] at h
  simp only [turn, keyCase, List.headD_cons, if_true, List.tail_cons, Nat.add_sub_cancel] at h
  cases hpass : mjsonPassString s k with
  | none =>
      rw [hpass] at h
      cases h
  | some n =>
      rw [hpass] at h
      obtain ⟨hlt, raw, t, rfl, rfl, hlocal⟩ := mjsonPassString_some hpass
      have hdrop : (quote :: (raw ++ quote :: t)).drop (raw.length + 2) = t := by simp
      simp only [follow, emits_fst, hdrop] at h
      -- after the name, a colon
      obtain ⟨w, t, k₁, rfl, hw, hk₁, hwhite, heq⟩ := scan_skip h
      rw [heq, scan_turn (Nat.add_one_ne_zero k₁) hwhite] at h
      by_cases hcolon : t.headD nul = colon
      · cases t with
        | nil => cases hcolon
        | cons c t =>
            rw [List.headD_cons] at hcolon
            subst hcolon
            simp only [turn, colonCase, List.headD_cons, if_true, follow, emits_fst,
              List.drop_one, List.tail_cons, Nat.add_sub_cancel] at h
            obtain ⟨w', t, k₂, rfl, hw', hk₂, hwhite', -⟩ := scan_skip h
            refine ⟨.key raw w w', t, k₂, ⟨hlocal [] _ (Nat.lt_succ_self _), hw, hw'⟩, ?_, ?_,
              hwhite'⟩
            · simp [Label.text, quoted]
            · simp only [Label.text, quoted, List.length_append, List.length_cons,
                List.length_nil]
              omega
      · simp only [turn, colonCase, hcolon, if_false] at h
        cases h

theorem value_not_square {s : Bytes} {i k : ℕ} {N : List Bracket}
    (hwhite : isWhitespace (s.headD nul) = false)
    (h : 0 ≤ (scan s i (k + 1) (.curly :: N) .value).1) : s.headD nul ≠ rbracket := by
  intro hbr
  cases s with
  | nil => cases hbr
  | cons c t =>
      rw [List.headD_cons] at hbr
      subst hbr
      rw [scan_turn (Nat.add_one_ne_zero k) hwhite] at h
      cases h

theorem items_curly {s : Bytes} {i a : ℕ} {N : List Bracket} (ih : ItemsParse a)
    (ihrest : RestParse a) (hN : N.length < mjsonMaxDepth)
    (h : 0 ≤ (scan s i a (.curly :: N) .key).1) :
    Parses (.items .curly) s i a N (scan s i a (.curly :: N) .key) := by
  obtain ⟨w, s, k, rfl, hw, rfl, hwhite, heq⟩ := scan_skip h
  rw [heq] at h ⊢
  cases s with
  | nil =>
      rw [scan_turn (Nat.add_one_ne_zero k) hwhite] at h
      cases h
  | cons c s =>
      by_cases hclose : c = rbrace
      · subst hclose
        refine ⟨.nil w, s, k, hw, by simpa [Phrase.depth] using hN, rfl, rfl, ?_⟩
        exact scan_close (i + w.length) k N .curly (.inl rfl)
      by_cases hquote : c = quote
      · subst hquote
        obtain ⟨label, t, k', hlabel, hs, hk, hwhite'⟩ := label_parses h
        have hlab := scan_label t (i + w.length) (k' + 1) N hlabel
        rw [← hs, ← hk] at hlab
        rw [Bracket.first] at hlab
        rw [hlab, emits_fst] at h
        obtain ⟨v, rest, t, c, hv, hrest, hdepth, rfl, hk', heq'⟩ :=
          item_parses (fun s i a' b N ha' => ih s i a' b N (by omega))
            (fun s i a' b N ha' => ihrest s i a' b N (by omega))
            (Nat.add_one_ne_zero k') hwhite' (value_not_square hwhite' h) hN h
        refine ⟨.item w label v rest, t, c, ⟨hw, hlabel, hv, hrest⟩, hdepth, ?_, ?_, ?_⟩
        · simp [Phrase.text, hs]
        · simp only [Phrase.text, List.length_append]
          omega
        · rw [hlab, heq', emits_emits]
          simp only [Phrase.events, Phrase.text, List.length_append, List.append_assoc,
            Nat.add_assoc]
      · rw [scan_turn (Nat.add_one_ne_zero k) hwhite] at h
        simp only [turn, keyCase, List.headD_cons, hquote, hclose, if_false] at h
        cases h

theorem rest_parses {b : Bracket} {s : Bytes} {i a : ℕ} {N : List Bracket} (ih : ItemsParse a)
    (hN : N.length < mjsonMaxDepth) (h : 0 ≤ (scan s i a (b :: N) .commaOrEoo).1) :
    Parses (.rest b) s i a N (scan s i a (b :: N) .commaOrEoo) := by
  obtain ⟨w, s, k, rfl, hw, rfl, hwhite, heq⟩ := scan_skip h
  rw [heq] at h ⊢
  cases s with
  | nil =>
      rw [scan_turn (Nat.add_one_ne_zero k) hwhite] at h
      cases h
  | cons c s =>
      by_cases hcomma : c = comma
      · subst hcomma
        rw [scan_comma] at h ⊢
        obtain ⟨items, t, c, hitems, hdepth, rfl, rfl, heq'⟩ := ih s _ k b N (by omega) hN h
        refine ⟨.more w items, t, c, ⟨hw, hitems, fun _ => trivial⟩, hdepth, ?_, ?_, ?_⟩
        · simp [Phrase.text]
        · simp only [Phrase.text, List.length_append, List.length_cons]
          omega
        · rw [heq', emits_emits]
          simp only [Phrase.events, Phrase.text, List.length_append, List.length_cons,
            List.cons_append, List.nil_append]
          rw [show i + w.length + 1 + items.text.length =
            i + (w.length + (items.text.length + 1)) by omega]
      by_cases hclose : c = b.closeByte
      · subst hclose
        refine ⟨.stop w, s, k, hw, by simpa [Phrase.depth] using hN, rfl, rfl, ?_⟩
        exact scan_close (i + w.length) k N b (.inr rfl)
      · rw [scan_turn (Nat.add_one_ne_zero k) hwhite] at h
        -- a closing bracket of the other kind, or no punctuation at all
        cases b <;>
          simp only [turn, commaOrEooCase, List.headD_cons, hcomma, if_false, closeTurn,
            Bracket.closeByte] at h hclose <;>
          simp only [hclose, if_false, reduceCtorEq] at h <;>
          split_ifs at h <;> cases h

theorem items_rest_parse (a : ℕ) : ItemsParse a ∧ RestParse a := by
  induction a with
  | zero => exact ⟨fun _ _ _ _ _ h => absurd h (Nat.not_lt_zero _),
      fun _ _ _ _ _ h => absurd h (Nat.not_lt_zero _)⟩
  | succ a ih =>
      obtain ⟨hitems, hrest⟩ := ih
      have hitems' : ∀ a', a' < a + 1 → ItemsParse a' :=
        fun a' ha' s i k b N hk => hitems s i k b N (by omega)
      have hrest' : ∀ a', a' < a + 1 → RestParse a' :=
        fun a' ha' s i k b N hk => hrest s i k b N (by omega)
      refine ⟨?_, ?_⟩
      · intro s i a' b N ha' hN h
        cases b with
        | curly => exact items_curly (hitems' a' ha') (hrest' a' ha') hN h
        | square => exact items_square (hitems' a' ha') (hrest' a' ha') hN h
      · intro s i a' b N ha' hN h
        exact rest_parses (hitems' a' ha') hN h

/-- A value of its own that is not a bracket is one call. -/
theorem valueCase_alone {c : UInt8} {s : Bytes} {i a : ℕ} (hopen : ∀ b, c ≠ Bracket.openByte b)
    (h : 0 ≤ (follow (c :: s) i a (valueCase (c :: s) a [])).1) :
    ∃ (tok : Tok) (n : ℕ), tok.isValue = true ∧
      follow (c :: s) i a (valueCase (c :: s) a []) = (((i + n : ℕ) : ℤ), [⟨tok, i, n⟩]) := by
  have hcurly : c ≠ lbrace := hopen .curly
  have hsquare : c ≠ lbracket := hopen .square
  generalize hT : valueCase (c :: s) a [] = T at h ⊢
  rw [valueCase_cons, if_neg hcurly, if_neg hsquare, if_neg (fun hbr => hbr.2 rfl)] at hT
  split_ifs at hT
  · exact ⟨.true, 4, rfl, hT ▸ rfl⟩
  · exact ⟨.null, 4, rfl, hT ▸ rfl⟩
  · exact ⟨.false, 5, rfl, hT ▸ rfl⟩
  · exact ⟨.number, (strtod (c :: s)).2, rfl, hT ▸ rfl⟩
  · cases hpass : mjsonPassString s (a - 1) with
    | none =>
        rw [hpass] at hT
        subst hT
        cases h
    | some n =>
        rw [hpass] at hT
        exact ⟨.string, n + 2, rfl, hT ▸ rfl⟩
  · subst hT
    cases h

theorem node_of_head {v : Value} (hv : v.WF mjsonLexicon) {b : Bracket} {s t : Bytes}
    (h : b.openByte :: s = v.text ++ t) : ∃ items, v = .node b items := by
  cases v with
  | true => cases b <;> cases h
  | false => cases b <;> cases h
  | null => cases b <;> cases h
  | string raw => cases b <;> cases h
  | number raw =>
      obtain ⟨⟨c, s', rfl, hc⟩, -⟩ := hv
      rw [Phrase.text, List.cons_append, List.cons.injEq] at h
      rw [← h.1] at hc
      cases b <;> rcases hc with hc | hc <;> cases hc
  | node b' items =>
      rw [Phrase.text, List.cons_append, List.cons.injEq] at h
      have hb : b = b' := by
        cases b <;> cases b' <;> first | rfl | cases h.1
      subst hb
      exact ⟨items, rfl⟩

/-- **Soundness.** Where `mjson` succeeds, the text is a scalar, passed in one call, or starts with
an object or an array, whose tokens are the calls. -/
theorem mjson_sound {s : Bytes} {len : ℕ} (h : 0 ≤ (mjson s len).1) :
    (∃ e, e.tok.isValue = true ∧ (mjson s len).2 = [e]) ∨ ∃ v i, Denotes s len v i := by
  rw [mjson_eq_scan] at h ⊢
  obtain ⟨w, s, k, rfl, hw, rfl, hwhite, heq⟩ := scan_skip h
  rw [heq] at h ⊢
  cases s with
  | nil =>
      rw [scan_turn (Nat.add_one_ne_zero k) hwhite] at h
      cases h
  | cons c s =>
      by_cases hopen : ∃ b, c = Bracket.openByte b
      · obtain ⟨b, rfl⟩ := hopen
        obtain ⟨v, t, c, hwf, hdepth, hs, hk, -⟩ :=
          node_parses (items_rest_parse (k + 1)).1 h
        obtain ⟨items, rfl⟩ := node_of_head hwf hs
        refine .inr ⟨.node b items, w.length, hwf, by simpa using hdepth, ⟨b, items, rfl⟩,
          ⟨w, t, hw, rfl, ?_⟩, ?_⟩
        · rw [hs]
        · omega
      · rw [scan_turn (Nat.add_one_ne_zero k) hwhite] at h ⊢
        obtain ⟨tok, n, htok, hone⟩ := valueCase_alone (fun b hb => hopen ⟨b, hb⟩) h
        refine .inl ⟨⟨tok, 0 + w.length, n⟩, htok, ?_⟩
        rw [turn, hone]

end OtiKiosk
