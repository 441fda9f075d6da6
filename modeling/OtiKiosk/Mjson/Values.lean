import OtiKiosk.Mjson.Lookup

/-!
Reading the values a lookup finds. A number is read by `strtod` from where it
starts, without a length; since a number in an object is followed by a byte that
ends it, what is read is the member, and nothing after the text has an
influence.
-/

namespace OtiKiosk

open Ascii Json

/-! ### The memory after a text -/

/-- The tree of a text depends on the bytes up to its length only. -/
theorem Denotes.congr {s s' : Bytes} {len i : ℕ} {v : Value} (h : Denotes s len v i)
    (hs : s.take len = s'.take len) : Denotes s' len v i := by
  refine ⟨h.wf, h.depth, h.node, ?_, h.len⟩
  obtain ⟨w, t, hw, hi, rfl⟩ := h.text
  have hlen := h.len
  refine ⟨w, s'.drop (i + v.text.length), hw, hi, ?_⟩
  have htake : s'.take (i + v.text.length) = w ++ v.text := by
    have := congrArg (List.take (i + v.text.length)) hs
    rw [List.take_take, List.take_take, Nat.min_eq_left hlen] at this
    rw [← this, ← List.append_assoc, List.take_left' (by simp [hi])]
  rw [← List.append_assoc, ← htake, List.take_append_drop]

/-- What follows a value, when it is a number, ends it. -/
def Json.Located.Ends (v : Located) (s : Bytes) : Prop :=
  ∀ raw, v.value = .number raw → ∀ d ∈ (s.drop (v.off + raw.length)).head?, Stops d

/-- The closing bracket after the items, or after what follows an item. -/
def Json.Part.close : Part → Bytes
  | .value => []
  | .items b => [b.closeByte]
  | .rest b => [b.closeByte]

theorem entries_ends {p : Part} (t : Phrase p) {s : Bytes} {i : ℕ} (hwf : t.WF mjsonLexicon)
    (hs : t.text ++ p.close <+: s.drop i) : ∀ e ∈ t.entries i, e.2.Ends s := by
  induction t generalizing i with
  | @item b w label v rest ihv ihrest =>
      obtain ⟨-, -, hv, hrest⟩ := hwf
      simp only [Phrase.text, List.append_assoc] at hs
      obtain ⟨-, hs⟩ := append_prefix_drop hs
      obtain ⟨-, hs⟩ := append_prefix_drop hs
      obtain ⟨-, hs⟩ := append_prefix_drop hs
      intro e he
      rcases List.mem_cons.mp he with rfl | he
      · rintro raw rfl d hd
        obtain ⟨t, ht⟩ := hs
        simp only [Phrase.text] at ht
        rw [← ht, List.append_assoc] at hd
        exact rest_head_stops hrest t d hd
      · exact ihrest hrest hs e he
  | @more b w items ih =>
      obtain ⟨-, hitems, -⟩ := hwf
      simp only [Phrase.text, List.append_assoc, List.cons_append] at hs
      obtain ⟨-, hs⟩ := append_prefix_drop hs
      have hsplit : [comma] ++ (items.text ++ [b.closeByte]) <+: s.drop (i + w.length) := hs
      exact ih hitems (append_prefix_drop hsplit).2
  | nil w | stop w | node b items ih | number raw | string raw | true | false | null =>
      intro e he
      cases he

theorem members_ends {s : Bytes} {d : ℕ} {v : Located} (h : v.In mjsonLexicon d s) :
    ∀ e ∈ v.members, e.2.Ends s := by
  obtain ⟨i, v⟩ := v
  cases v with
  | node b items =>
      cases b with
      | curly =>
          have hsplit : [lbrace] ++ (items.text ++ [rbrace]) <+: s.drop i := h.text
          exact entries_ends items h.wf (append_prefix_drop hsplit).2
      | square => exact nofun
  | number raw => exact nofun
  | string raw => exact nofun
  | true => exact nofun
  | false => exact nofun
  | null => exact nofun

/-! ### Values -/

def Json.Phrase.number? : Value → Option Double
  | .number raw => some (strtod raw).1
  | _ => none

def Json.Phrase.bool? : Value → Option Bool
  | .true => some Bool.true
  | .false => some Bool.false
  | _ => none

def Json.Phrase.string? : Value → Option Bytes
  | .string raw => some raw
  | _ => none

/-- A value found as a member: it lies in the text, and ends there. -/
structure Json.Located.Member (v : Located) (s : Bytes) : Prop where
  inText : v.In mjsonLexicon mjsonMaxDepth s
  ends : v.Ends s

section

variable {s : Bytes} {u v : Located}

theorem member_of_entry (h : v.In mjsonLexicon mjsonMaxDepth s) {e : Option Bytes × Located}
    (he : e ∈ v.members) : e.2.Member s :=
  ⟨Located.members_in h e he, members_ends h e he⟩

theorem member_of_member (h : v.In mjsonLexicon mjsonMaxDepth s) {n : Bytes}
    (hu : v.member n = some u) : u.Member s := by
  simp only [Located.member, Option.map_eq_some_iff] at hu
  obtain ⟨e, he, rfl⟩ := hu
  exact member_of_entry h (List.mem_of_find?_eq_some he)

theorem Json.Located.sticky_in {L : Lexicon} {d : ℕ} (h : v.In L d s) {n m : Bytes}
    (hu : v.sticky n m = some u) : u.In L d s := by
  obtain ⟨e, he, hu⟩ := List.exists_of_findSome?_eq_some hu
  have hmem : e ∈ v.members := (List.dropWhile_suffix _).subset he
  exact Located.member_in (Located.members_in h e hmem) hu

theorem member_of_sticky (h : v.In mjsonLexicon mjsonMaxDepth s) {n m : Bytes}
    (hu : v.sticky n m = some u) : u.Member s := by
  obtain ⟨e, he, hu⟩ := List.exists_of_findSome?_eq_some hu
  have hmem : e ∈ v.members := (List.dropWhile_suffix _).subset he
  exact member_of_member (member_of_entry h hmem).inText hu

theorem Json.Located.Member.strtod_eq (h : v.Member s) {raw : Bytes} (hv : v.value = .number raw) :
    strtod (s.drop v.off) = strtod raw := by
  obtain ⟨t, ht⟩ := h.inText.text
  have hwf := h.inText.wf
  have hends := h.ends raw hv
  rw [hv] at ht hwf
  simp only [Phrase.text] at ht
  rw [← List.drop_drop, ← ht, List.drop_left] at hends
  rw [← ht]
  exact strtod_number hwf hends

theorem Json.Located.Member.raw_eq (h : v.Member s) {raw : Bytes} (hv : v.value = .string raw) :
    (s.drop (v.off + 1)).take (v.value.text.length - 2) = raw := by
  obtain ⟨t, ht⟩ := h.inText.text
  rw [hv] at ht ⊢
  rw [← List.drop_drop, ← ht]
  simp [Phrase.text, quoted]

end

/-! ### Readers -/

section

variable {s : Bytes} {len : ℕ} {path : Bytes} {u : Option Located}

/-- The reader of numbers, where a lookup finds a member or nothing. -/
theorem mjsonGetNumber_of (hfind : mjsonFind s len path = .of u)
    (hu : ∀ v, u = some v → v.Member s) :
    mjsonGetNumber s len path = u.bind fun v => v.value.number? := by
  simp only [mjsonGetNumber, hfind]
  cases u with
  | none => rfl
  | some v =>
      have hmember := hu v rfl
      obtain ⟨i, v⟩ := v
      cases v with
      | number raw =>
          have hread := hmember.strtod_eq rfl
          simp only [Found.of, Phrase.tok, if_true, Option.bind_some, Phrase.number?]
          rw [hread]
      | node b items => cases b <;> rfl
      | true => rfl
      | false => rfl
      | null => rfl
      | string raw => rfl

theorem mjsonGetBool_of (hfind : mjsonFind s len path = .of u) :
    mjsonGetBool s len path = u.bind fun v => v.value.bool? := by
  simp only [mjsonGetBool, hfind]
  cases u with
  | none => rfl
  | some v =>
      obtain ⟨i, v⟩ := v
      cases v with
      | node b items => cases b <;> rfl
      | _ => rfl

theorem mjsonGetString_of (hfind : mjsonFind s len path = .of u)
    (hu : ∀ v, u = some v → v.Member s) (n : ℕ) :
    mjsonGetString s len path n =
      match u.bind fun v => v.value.string? with
      | none => ([], some 0)
      | some raw => mjsonUnescape raw n := by
  simp only [mjsonGetString, hfind]
  cases u with
  | none => rfl
  | some v =>
      have hmember := hu v rfl
      obtain ⟨i, v⟩ := v
      cases v with
      | string raw =>
          have hraw := hmember.raw_eq rfl
          simp only [Found.of, Phrase.tok, ne_eq, not_true_eq_false, if_false, Option.bind_some,
            Phrase.string?]
          rw [hraw]
      | node b items => cases b <;> rfl
      | true => rfl
      | false => rfl
      | null => rfl
      | number raw => rfl

end

end OtiKiosk
