import OtiKiosk.Client.Receive
import OtiKiosk.Client.Spelling
import OtiKiosk.Commands.Tokens

/-!
Events of the reader. Their handler copies the lines as they stand between the
quotes, where `parse_json_fields` decodes them, and looks only at the range of the
index. So an event is passed on as it was meant exactly if its index is an
integer and its lines are spelled without escapes.
-/

namespace OtiKiosk

open Ascii Json

/-! ### Reading an event -/

structure PassedOn (message params : Value) (raw : Bytes) : Prop where
  method : (message.get (ascii "method")).bind Phrase.string? = some (ascii "ReaderMessageEvent")
  member : message.get (ascii "params") = some params
  object : ∃ items, params = .node .curly items
  index : params.get (ascii "index") = some (.number raw)
  range : (strtod raw).1.isNegative = false ∧ (strtod raw).1.exceeds 0xFF = false

def spelledLine (params : Value) (name : Bytes) : Bytes :=
  ((params.get name).bind Phrase.string?).getD []

def spelledEvent (params : Value) (raw : Bytes) : ReaderEvent :=
  ⟨UInt8.ofNat (strtod raw).1.toInt.toNat, spelledLine params (ascii "line1"),
    spelledLine params (ascii "line2")⟩

section

variable {s : Bytes} {len i : ℕ} {t : Value}

theorem Denotes.readerLine_eq (h : Denotes s len t i) {n : Bytes} (hn : IsName n) :
    readerLine s len (pathOf [n]) = spelledLine t n := by
  rw [spelledLine, ← h.stringToken_eq hn, readerLine, stringToken]
  split_ifs
  · rfl
  · rfl

/-- The event of a message with parameters. -/
theorem Denotes.parseReaderEvent_object (h : Denotes s len t i)
    (hmethod : (t.get (ascii "method")).bind Phrase.string? = some (ascii "ReaderMessageEvent"))
    {params : Located} (hparams : Located.member ⟨i, t⟩ (ascii "params") = some params)
    (hobj : params.value.tok = .object) :
    parseReaderEvent s len =
      ((params.value.get (ascii "index")).bind Phrase.numeral?).bind fun raw =>
        if (strtod raw).1.isNegative || (strtod raw).1.exceeds 0xFF then none
        else some (spelledEvent params.value raw) := by
  have hden := h.params hparams hobj
  have hfind : mjsonFind s len (ascii "$.params") = .of (some params) := by
    rw [path_params, h.mjsonFind_member (by decide), hparams]
  have hmethod' : methodIs s len (ascii "ReaderMessageEvent") := (h.methodIs_iff _).mpr hmethod
  have hindex : mjsonGetNumber (s.drop params.off) params.value.text.length (ascii "$.index") =
      ((params.value.get (ascii "index")).bind Phrase.numeral?).map fun raw => (strtod raw).1 := by
    rw [path_index, mjsonGetNumber_token _ _ (by decide), hden.numberToken_eq (by decide)]
  have hline1 : readerLine (s.drop params.off) params.value.text.length (ascii "$.line1") =
      spelledLine params.value (ascii "line1") := by
    rw [path_line1, hden.readerLine_eq (by decide)]
  have hline2 : readerLine (s.drop params.off) params.value.text.length (ascii "$.line2") =
      spelledLine params.value (ascii "line2") := by
    rw [path_line2, hden.readerLine_eq (by decide)]
  rw [parseReaderEvent, if_neg (not_not_intro hmethod')]
  simp only [hfind, Found.of, hobj, ne_eq, not_true_eq_false, if_false, hindex, hline1, hline2]
  cases (params.value.get (ascii "index")).bind Phrase.numeral? with
  | none => rfl
  | some raw => rfl

theorem numeral_eq_some {v : Option Value} {raw : Bytes} :
    v.bind Phrase.numeral? = some raw ↔ v = some (.number raw) := by
  cases v with
  | none => simp
  | some v => cases v <;> simp [Phrase.numeral?]

/-- The handler sees the tree of a message only. -/
theorem Denotes.parseReaderEvent_iff (h : Denotes s len t i) (e : ReaderEvent) :
    parseReaderEvent s len = some e ↔
      ∃ params raw, PassedOn t params raw ∧ e = spelledEvent params raw := by
  have hget := Located.member_value ⟨i, t⟩ (ascii "params")
  by_cases hmethod : (t.get (ascii "method")).bind Phrase.string? = some (ascii "ReaderMessageEvent")
  · by_cases hobject : ∃ params, Located.member ⟨i, t⟩ (ascii "params") = some params ∧
        params.value.tok = .object
    · obtain ⟨params, hparams, hobj⟩ := hobject
      obtain ⟨items, hitems⟩ := object_of_tok hobj
      rw [hparams, Option.map_some] at hget
      rw [h.parseReaderEvent_object hmethod hparams hobj, Option.bind_eq_some_iff]
      constructor
      · rintro ⟨raw, hraw, hread⟩
        split_ifs at hread with hrange
        rw [Bool.not_eq_true, Bool.or_eq_false_iff] at hrange
        exact ⟨params.value, raw, ⟨hmethod, hget.symm, ⟨items, hitems⟩, numeral_eq_some.mp hraw,
          hrange⟩, (Option.some.inj hread).symm⟩
      · rintro ⟨v, raw, hpassed, rfl⟩
        obtain rfl := Option.some.inj (hget.trans hpassed.member)
        refine ⟨raw, numeral_eq_some.mpr hpassed.index, ?_⟩
        rw [hpassed.range.1, hpassed.range.2, Bool.or_false, if_neg Bool.false_ne_true]
    · refine iff_of_false ?_ ?_
      · have hfind : (mjsonFind s len (ascii "$.params")).tok ≠ .object := by
          rw [path_params, h.mjsonFind_member (by decide)]
          intro htok
          cases hparams : Located.member ⟨i, t⟩ (ascii "params") with
          | none =>
              rw [hparams] at htok
              cases htok
          | some params =>
              rw [hparams] at htok
              exact hobject ⟨params, hparams, htok⟩
        have hmethod' := (h.methodIs_iff _).mpr hmethod
        rw [parseReaderEvent, if_neg (not_not_intro hmethod')]
        simp only [hfind, ne_eq, not_false_eq_true, if_true]
        intro hnone
        cases hnone
      · rintro ⟨v, raw, hpassed, -⟩
        obtain ⟨items, rfl⟩ := hpassed.object
        rw [hpassed.member, Option.map_eq_some_iff] at hget
        obtain ⟨params, hparams, hvalue⟩ := hget
        exact hobject ⟨params, hparams, by rw [hvalue]; rfl⟩
  · refine iff_of_false ?_ ?_
    · rw [parseReaderEvent, if_pos fun hm => hmethod ((h.methodIs_iff _).mp hm)]
      intro hnone
      cases hnone
    · rintro ⟨v, raw, hpassed, -⟩
      exact hmethod hpassed.method

theorem parseReaderEvent_none (h : ∀ t i, ¬Denotes s len t i) : parseReaderEvent s len = none := by
  have hparams : mjsonFind s len (ascii "$.params") = .none := by
    rw [path_params, mjsonFind_none h]
  rw [parseReaderEvent, hparams]
  split_ifs
  · rfl
  · rfl

end

/-! ### Faithful events -/

structure IsReaderEvent (message params : Value) (msgIndex : ℤ) : Prop where
  method : ((message.get (ascii "method")).bind Phrase.string?).bind decode =
    some (ascii "ReaderMessageEvent")
  member : message.get (ascii "params") = some params
  object : ∃ items, params = .node .curly items
  index : ∃ raw, params.get (ascii "index") = some (.number raw) ∧
    numeralValue raw = some (msgIndex : ℚ)
  range : 0 ≤ msgIndex ∧ msgIndex ≤ 255

/-- The line is what the string of that name stands for, or empty if there is no member of that
name. -/
def SpellsLine (params : Value) (name line : Bytes) : Prop :=
  (params.get name = none → line = []) ∧
    ∀ raw, params.get name = some (.string raw) → decode raw = some line

/-- The application is told of the events that there are, and told what they say. -/
structure ReaderFaithful (s : Bytes) (len : ℕ) : Prop where
  called : ∀ t i, Denotes s len t i →
    ((∃ e, .readerEvent e ∈ readerEventReceived true s len) ↔
      ∃ params index, IsReaderEvent t params index)
  refused : (∀ t i, ¬Denotes s len t i) → readerEventReceived true s len = []
  index : ∀ e, .readerEvent e ∈ readerEventReceived true s len → ∀ t i params index,
    Denotes s len t i → IsReaderEvent t params index → (e.msgIndex.toNat : ℤ) = index
  lines : ∀ e, .readerEvent e ∈ readerEventReceived true s len → ∀ t i params,
    Denotes s len t i → t.get (ascii "params") = some params →
      SpellsLine params (ascii "line1") e.line1 ∧ SpellsLine params (ascii "line2") e.line2

/-- The index is an integer, and the lines need no decoding. -/
structure ReadAsIs (params : Value) (raw : Bytes) : Prop where
  index : ∃ v : ℤ, numeralValue raw = some (v : ℚ) ∧ 0 ≤ v ∧ v ≤ 255
  line1 : ∀ line, params.get (ascii "line1") = some (.string line) → backslash ∉ line
  line2 : ∀ line, params.get (ascii "line2") = some (.string line) → backslash ∉ line

theorem mem_readerEventReceived {s : Bytes} {len : ℕ} {e : ReaderEvent} :
    .readerEvent e ∈ readerEventReceived true s len ↔ parseReaderEvent s len = some e := by
  rw [readerEventReceived, if_pos rfl]
  cases parseReaderEvent s len with
  | none => simp
  | some e' => simp [eq_comm]

theorem decode_eq_word {o : Option Bytes} {w : Bytes} (hw : IsWord w) :
    o.bind decode = some w ↔ o = some w := by
  constructor
  · intro h
    obtain ⟨raw, rfl, hraw⟩ := Option.bind_eq_some_iff.mp h
    rw [decode_eq_self hraw hw]
  · rintro rfl
    exact hw.decode_eq

/-- A string is read as it stands just if there is no backslash in it. -/
theorem decode_self_iff {raw : Bytes} (hraw : mjsonLexicon.string raw) :
    decode raw = some raw ↔ backslash ∉ raw := by
  constructor
  · intro h
    have hpass : mjsonPassString (raw ++ quote :: []) (raw ++ quote :: []).length =
        some raw.length := by
      rw [List.length_append, List.length_singleton]
      exact hraw
    refine (read_back_of_quoted (j := 0) hpass ?_).2.2.1
    rw [List.take_left]
    exact h
  · intro hback
    clear hraw
    induction raw with
    | nil => rfl
    | cons c raw ih =>
        rw [List.mem_cons, not_or] at hback
        rw [decode_plain (Ne.symm hback.1), ih hback.2]
        rfl

section

variable {message params : Value} {raw : Bytes}

theorem PassedOn.unique {params' : Value} {raw' : Bytes} (h : PassedOn message params raw)
    (h' : PassedOn message params' raw') : params = params' ∧ raw = raw' := by
  obtain rfl := Option.some.inj (h.member.symm.trans h'.member)
  have hraw := Option.some.inj (h.index.symm.trans h'.index)
  exact ⟨rfl, Phrase.number.inj hraw⟩

theorem PassedOn.isReaderEvent (h : PassedOn message params raw) {v : ℤ}
    (hvalue : numeralValue raw = some (v : ℚ)) (hrange : 0 ≤ v ∧ v ≤ 255) :
    IsReaderEvent message params v :=
  ⟨(decode_eq_word (by decide)).mpr h.method, h.member, h.object, ⟨raw, h.index, hvalue⟩, hrange⟩

/-- An event with an integer in the range is passed on, with that integer. -/
theorem IsReaderEvent.passedOn (hwf : message.WF mjsonLexicon) {v : ℤ}
    (h : IsReaderEvent message params v) :
    ∃ raw, PassedOn message params raw ∧ numeralValue raw = some (v : ℚ) ∧
      ((spelledEvent params raw).msgIndex.toNat : ℤ) = v := by
  obtain ⟨raw, hindex, hvalue⟩ := h.index
  obtain ⟨hnonneg, hle⟩ := h.range
  have hnumber : mjsonLexicon.number raw :=
    number_of_get (wf_of_get hwf h.member) (numeral_eq_some.mpr hindex)
  have hcompare := compare_of_value (k := 0xFF) hnumber hvalue hnonneg hle (by decide)
  refine ⟨raw, ⟨(decode_eq_word (by decide)).mp h.method, h.member, h.object, hindex, hcompare⟩,
    hvalue, ?_⟩
  have hint : (strtod raw).1.toInt = v := by
    refine toInt_of_value hnumber hvalue ?_ ?_
    · unfold intMin
      omega
    · unfold intMax
      omega
  rw [spelledEvent, hint, UInt8.toNat_ofNat']
  omega

theorem spelledLine_iff (hwf : params.WF mjsonLexicon) (name : Bytes) :
    SpellsLine params name (spelledLine params name) ↔
      ∀ line, params.get name = some (.string line) → backslash ∉ line := by
  have hspelled : ∀ line, params.get name = some (.string line) →
      spelledLine params name = line ∧ mjsonLexicon.string line := by
    intro line hget
    have hstring : (params.get name).bind Phrase.string? = some line := by
      rw [hget]
      rfl
    exact ⟨by rw [spelledLine, hstring]; rfl, string_of_get hwf hstring⟩
  constructor
  · rintro ⟨-, hspells⟩ line hget
    obtain ⟨hline, hchars⟩ := hspelled line hget
    have hdecode := hspells line hget
    rw [hline] at hdecode
    exact (decode_self_iff hchars).mp hdecode
  · intro hback
    refine ⟨fun hnone => ?_, fun line hget => ?_⟩
    · rw [spelledLine, hnone]
      rfl
    · obtain ⟨hline, hchars⟩ := hspelled line hget
      rw [hline]
      exact (decode_self_iff hchars).mpr (hback line hget)

end

/-- **Reader events.** The application is told of the events of the reader as they are meant if and
only if every event that is passed on has an integer as its index and no backslash in its lines. -/
theorem reader_faithful_iff (s : Bytes) (len : ℕ) :
    ReaderFaithful s len ↔ ∀ t i params raw, Denotes s len t i → PassedOn t params raw →
      ReadAsIs params raw := by
  constructor
  · intro h t i params raw ht hpassed
    have hmem : .readerEvent (spelledEvent params raw) ∈ readerEventReceived true s len :=
      mem_readerEventReceived.mpr ((ht.parseReaderEvent_iff _).mpr ⟨params, raw, hpassed, rfl⟩)
    have hwf := wf_of_get ht.wf hpassed.member
    obtain ⟨hline1, hline2⟩ := h.lines _ hmem t i params ht hpassed.member
    refine ⟨?_, (spelledLine_iff hwf _).mp hline1, (spelledLine_iff hwf _).mp hline2⟩
    -- what is called for is an event, and its index the number that was read
    obtain ⟨params', v, hevent⟩ := (h.called t i ht).mp ⟨_, hmem⟩
    obtain ⟨raw', hpassed', hvalue, -⟩ := hevent.passedOn ht.wf
    obtain ⟨rfl, rfl⟩ := hpassed.unique hpassed'
    exact ⟨v, hvalue, hevent.range⟩
  · intro h
    refine ⟨?_, ?_, ?_, ?_⟩
    · intro t i ht
      constructor
      · rintro ⟨e, hmem⟩
        obtain ⟨params, raw, hpassed, -⟩ :=
          (ht.parseReaderEvent_iff e).mp (mem_readerEventReceived.mp hmem)
        obtain ⟨v, hvalue, hrange⟩ := (h t i params raw ht hpassed).index
        exact ⟨params, v, hpassed.isReaderEvent hvalue hrange⟩
      · rintro ⟨params, v, hevent⟩
        obtain ⟨raw, hpassed, -⟩ := hevent.passedOn ht.wf
        exact ⟨_, mem_readerEventReceived.mpr
          ((ht.parseReaderEvent_iff _).mpr ⟨params, raw, hpassed, rfl⟩)⟩
    · intro hno
      rw [readerEventReceived, if_pos rfl, parseReaderEvent_none hno]
      rfl
    · intro e hmem t i params v ht hevent
      obtain ⟨params', raw', hpassed', rfl⟩ :=
        (ht.parseReaderEvent_iff e).mp (mem_readerEventReceived.mp hmem)
      obtain ⟨raw, hpassed, -, hindex⟩ := hevent.passedOn ht.wf
      obtain ⟨rfl, rfl⟩ := hpassed.unique hpassed'
      exact hindex
    · intro e hmem t i params ht hmember
      obtain ⟨params', raw, hpassed, rfl⟩ :=
        (ht.parseReaderEvent_iff e).mp (mem_readerEventReceived.mp hmem)
      obtain rfl := Option.some.inj (hmember.symm.trans hpassed.member)
      have hwf := wf_of_get ht.wf hmember
      have hasis := h t i params raw ht hpassed
      exact ⟨(spelledLine_iff hwf _).mpr hasis.line1, (spelledLine_iff hwf _).mpr hasis.line2⟩

def readerMessage (index line : Bytes) : Value :=
  object [(ascii "method", .string (ascii "ReaderMessageEvent")),
    (ascii "params", object [(ascii "index", .number index), (ascii "line1", .string line)])]

/-- A line is shown with its backslashes, and an index loses its fraction. -/
theorem readerMessage_misread :
    readerEventReceived true (readerMessage (ascii "1") (ascii "50\\/50")).text
        (readerMessage (ascii "1") (ascii "50\\/50")).text.length =
      [.readerEvent ⟨1, ascii "50\\/50", []⟩] ∧
    readerEventReceived true (readerMessage (ascii "1.5") (ascii "Insert card")).text
        (readerMessage (ascii "1.5") (ascii "Insert card")).text.length =
      [.readerEvent ⟨1, ascii "Insert card", []⟩] ∧
    ¬ReaderFaithful (readerMessage (ascii "1") (ascii "50\\/50")).text
        (readerMessage (ascii "1") (ascii "50\\/50")).text.length ∧
    ¬ReaderFaithful (readerMessage (ascii "1.5") (ascii "Insert card")).text
        (readerMessage (ascii "1.5") (ascii "Insert card")).text.length := by
  have hslash : readerEventReceived true (readerMessage (ascii "1") (ascii "50\\/50")).text
      (readerMessage (ascii "1") (ascii "50\\/50")).text.length =
        [.readerEvent ⟨1, ascii "50\\/50", []⟩] := by decide +kernel
  have hfraction : readerEventReceived true (readerMessage (ascii "1.5") (ascii "Insert card")).text
      (readerMessage (ascii "1.5") (ascii "Insert card")).text.length =
        [.readerEvent ⟨1, ascii "Insert card", []⟩] := by decide +kernel
  refine ⟨hslash, hfraction, fun h => ?_, fun h => ?_⟩
  · have hden : Denotes (readerMessage (ascii "1") (ascii "50\\/50")).text
        (readerMessage (ascii "1") (ascii "50\\/50")).text.length
        (readerMessage (ascii "1") (ascii "50\\/50")) 0 :=
      .of_text (by decide +kernel) (by decide +kernel) ⟨.curly, _, rfl⟩
    obtain ⟨⟨-, hline⟩, -⟩ := h.lines _ (hslash ▸ List.mem_singleton_self _) _ 0 _ hden rfl
    exact absurd (hline (ascii "50\\/50") rfl) (by decide +kernel)
  · have hden : Denotes (readerMessage (ascii "1.5") (ascii "Insert card")).text
        (readerMessage (ascii "1.5") (ascii "Insert card")).text.length
        (readerMessage (ascii "1.5") (ascii "Insert card")) 0 :=
      .of_text (by decide +kernel) (by decide +kernel) ⟨.curly, _, rfl⟩
    obtain ⟨params, v, hevent⟩ := (h.called _ 0 hden).mp ⟨_, hfraction ▸ List.mem_singleton_self _⟩
    obtain ⟨raw, hindex, hvalue⟩ := hevent.index
    have hmember : (readerMessage (ascii "1.5") (ascii "Insert card")).get (ascii "params") =
        some (object [(ascii "index", .number (ascii "1.5")),
          (ascii "line1", .string (ascii "Insert card"))]) := rfl
    obtain rfl := Option.some.inj (hmember.symm.trans hevent.member)
    have hraw : ascii "1.5" = raw := Phrase.number.inj (Option.some.inj hindex)
    have hhalf : numeralValue (ascii "1.5") = some (3 / 2) := by decide +kernel
    rw [← hraw, hhalf, Option.some.injEq, div_eq_iff (by norm_num)] at hvalue
    have hthree : (3 : ℤ) = v * 2 := by exact_mod_cast hvalue
    omega

end OtiKiosk
