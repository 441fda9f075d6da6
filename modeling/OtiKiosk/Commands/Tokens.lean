import OtiKiosk.Commands.Reading
import OtiKiosk.Mjson.Exact

/-!
The tokens that a lookup of one name finds, as they stand in the text: the digits
of a number, the text between the quotes of a string.
-/

namespace OtiKiosk

open Ascii Json

def numberToken (s : Bytes) (len : ℕ) (path : Bytes) : Option Bytes :=
  let f := mjsonFind s len path
  if f.tok = .number then some ((s.drop f.off).take f.len) else none

def stringToken (s : Bytes) (len : ℕ) (path : Bytes) : Option Bytes :=
  let f := mjsonFind s len path
  if f.tok = .string then some ((s.drop (f.off + 1)).take (f.len - 2)) else none

def Json.Phrase.numeral? : Value → Option Bytes
  | .number raw => some raw
  | _ => none

theorem number?_numeral (v : Value) : v.number? = v.numeral?.map fun raw => (strtod raw).1 := by
  cases v <;> rfl

theorem number_of_get {L : Lexicon} {v : Value} {name raw : Bytes} (h : v.WF L)
    (hget : (v.get name).bind Phrase.numeral? = some raw) : L.number raw := by
  obtain ⟨w, hw, hraw⟩ := Option.bind_eq_some_iff.mp hget
  have hwf := wf_of_get h hw
  cases w with
  | number raw' =>
      obtain rfl := Option.some.inj hraw
      exact hwf
  | _ => cases hraw

theorem string_of_get {L : Lexicon} {v : Value} {name raw : Bytes} (h : v.WF L)
    (hget : (v.get name).bind Phrase.string? = some raw) : L.string raw := by
  obtain ⟨w, hw, hraw⟩ := Option.bind_eq_some_iff.mp hget
  have hwf := wf_of_get h hw
  cases w with
  | string raw' =>
      obtain rfl := Option.some.inj hraw
      exact hwf
  | _ => cases hraw

section

variable {s : Bytes} {len i : ℕ} {t : Value} {n : Bytes}

theorem Denotes.numberToken_eq (h : Denotes s len t i) (hn : IsName n) :
    numberToken s len (pathOf [n]) = (t.get n).bind Phrase.numeral? := by
  obtain ⟨hfind, hmember⟩ := h.find_member hn
  rw [numberToken, hfind, ← Located.member_value ⟨i, t⟩, Option.bind_map]
  cases hv : Located.member ⟨i, t⟩ n with
  | none => rfl
  | some v =>
      obtain ⟨r, hr⟩ := (hmember v hv).inText.text
      obtain ⟨off, v⟩ := v
      simp only [Found.of]
      rw [← hr, List.take_left]
      cases v with
      | node b items => cases b <;> rfl
      | _ => rfl

theorem Denotes.stringToken_eq (h : Denotes s len t i) (hn : IsName n) :
    stringToken s len (pathOf [n]) = (t.get n).bind Phrase.string? := by
  obtain ⟨hfind, hmember⟩ := h.find_member hn
  rw [stringToken, hfind, ← Located.member_value ⟨i, t⟩, Option.bind_map]
  cases hv : Located.member ⟨i, t⟩ n with
  | none => rfl
  | some v =>
      have hraw : ∀ raw, v.value = .string raw →
          (s.drop (v.off + 1)).take (v.value.text.length - 2) = raw :=
        fun raw hstring => (hmember v hv).raw_eq hstring
      obtain ⟨off, v⟩ := v
      cases v with
      | string raw => exact congrArg some (hraw raw rfl)
      | node b items => cases b <;> rfl
      | _ => rfl

theorem numberToken_none (h : ∀ t i, ¬Denotes s len t i) (n : Bytes) :
    numberToken s len (pathOf [n]) = none := by
  rw [numberToken, mjsonFind_none h]
  rfl

theorem stringToken_none (h : ∀ t i, ¬Denotes s len t i) (n : Bytes) :
    stringToken s len (pathOf [n]) = none := by
  rw [stringToken, mjsonFind_none h]
  rfl

theorem number_of_token (hn : IsName n) {raw : Bytes}
    (h : numberToken s len (pathOf [n]) = some raw) : mjsonLexicon.number raw := by
  by_cases hdenotes : ∃ t i, Denotes s len t i
  · obtain ⟨t, i, ht⟩ := hdenotes
    rw [ht.numberToken_eq hn] at h
    exact number_of_get ht.wf h
  · push Not at hdenotes
    rw [numberToken_none hdenotes] at h
    cases h

theorem string_of_token (hn : IsName n) {raw : Bytes}
    (h : stringToken s len (pathOf [n]) = some raw) : mjsonLexicon.string raw := by
  by_cases hdenotes : ∃ t i, Denotes s len t i
  · obtain ⟨t, i, ht⟩ := hdenotes
    rw [ht.stringToken_eq hn] at h
    exact string_of_get ht.wf h
  · push Not at hdenotes
    rw [stringToken_none hdenotes] at h
    cases h

/-- The number at a path is its token, rounded. -/
theorem mjsonGetNumber_token (s : Bytes) (len : ℕ) (hn : IsName n) :
    mjsonGetNumber s len (pathOf [n]) =
      (numberToken s len (pathOf [n])).map fun raw => (strtod raw).1 := by
  by_cases hdenotes : ∃ t i, Denotes s len t i
  · obtain ⟨t, i, h⟩ := hdenotes
    obtain ⟨hfind, hmember⟩ := h.find_member hn
    have hnumber : ∀ v : Value, v.number? = v.numeral?.map fun raw => (strtod raw).1 :=
      number?_numeral
    rw [mjsonGetNumber_of hfind hmember, h.numberToken_eq hn, ← Located.member_value ⟨i, t⟩,
      Option.bind_map, Option.map_bind]
    exact congrArg _ (funext fun v => hnumber v.value)
  · push Not at hdenotes
    rw [numberToken_none hdenotes, mjsonGetNumber, mjsonFind_none hdenotes]
    rfl

theorem mjsonGetString_token (s : Bytes) (len : ℕ) (path : Bytes) (n : ℕ) :
    mjsonGetString s len path n =
      match stringToken s len path with
      | none => ([], some 0)
      | some raw => mjsonUnescape raw n := by
  by_cases htok : (mjsonFind s len path).tok = .string
  · simp only [mjsonGetString, stringToken, htok, ne_eq, not_true_eq_false, if_false, if_true]
  · simp only [mjsonGetString, stringToken, htok, ne_eq, not_false_eq_true, if_true, if_false]

end

end OtiKiosk
