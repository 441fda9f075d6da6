import OtiKiosk.Lib.Ascii

/-!
Concrete syntax trees of JSON texts. A tree keeps every byte of its text, blanks
included, so that it says where in the text each part lies. The parts of a tree
are the points at which a reader of the text can stand: before a value, before
an item or the closing bracket, before a comma or the closing bracket.

What a number and a string may be is left to a `Lexicon`; `strict` is the one of
RFC 8259, over bytes.
-/

namespace OtiKiosk

open Ascii

inductive Bracket
  | curly | square
  deriving DecidableEq

def Bracket.openByte : Bracket → UInt8
  | .curly => lbrace
  | .square => lbracket

def Bracket.closeByte : Bracket → UInt8
  | .curly => rbrace
  | .square => rbracket

def isWhitespace (c : UInt8) : Bool := c == space || c == tab || c == newline || c == carriageReturn

namespace Json

def IsBlank (w : Bytes) : Prop := ∀ c ∈ w, isWhitespace c = true

instance (w : Bytes) : Decidable (IsBlank w) := inferInstanceAs (Decidable (∀ c ∈ w, _))

theorem isBlank_nil : IsBlank [] := fun _ hc => absurd hc List.not_mem_nil

/-- What stands before the value of an item: in an object its name and a colon,
with the blanks around the colon. -/
inductive Label : Bracket → Type
  | key (raw blank blank' : Bytes) : Label .curly
  | element : Label .square

/-- What is left to read: a value, the items up to the closing bracket, or what
follows an item up to the closing bracket. -/
inductive Part
  | value
  | items (b : Bracket)
  | rest (b : Bracket)

theorem Part.items_ne_value (b : Bracket) : Part.items b ≠ .value := by
  intro h
  cases h

theorem Part.rest_ne_value (b : Bracket) : Part.rest b ≠ .value := by
  intro h
  cases h

inductive Phrase : Part → Type
  | true : Phrase .value
  | false : Phrase .value
  | null : Phrase .value
  | number (raw : Bytes) : Phrase .value
  | string (raw : Bytes) : Phrase .value
  | node (b : Bracket) (items : Phrase (.items b)) : Phrase .value
  | nil {b : Bracket} (blank : Bytes) : Phrase (.items b)
  | item {b : Bracket} (blank : Bytes) (label : Label b) (v : Phrase .value)
      (rest : Phrase (.rest b)) : Phrase (.items b)
  | stop {b : Bracket} (blank : Bytes) : Phrase (.rest b)
  | more {b : Bracket} (blank : Bytes) (items : Phrase (.items b)) : Phrase (.rest b)

abbrev Value := Phrase .value

def quoted (raw : Bytes) : Bytes := quote :: raw ++ [quote]

def Label.text {b : Bracket} : Label b → Bytes
  | .key raw w w' => quoted raw ++ (w ++ colon :: w')
  | .element => []

def Phrase.text {p : Part} : Phrase p → Bytes
  | .true => ascii "true"
  | .false => ascii "false"
  | .null => ascii "null"
  | .number raw => raw
  | .string raw => quoted raw
  | .node b items => b.openByte :: (items.text ++ [b.closeByte])
  | .nil w => w
  | .item w label v rest => w ++ (label.text ++ (v.text ++ rest.text))
  | .stop w => w
  | .more w items => w ++ comma :: items.text

def Phrase.depth {p : Part} : Phrase p → ℕ
  | .node _ items => items.depth + 1
  | .item _ _ v rest => max v.depth rest.depth
  | .more _ items => items.depth
  | _ => 0

/-- What the parts of a text that are not punctuation may be, and whether a comma
may stand before a closing bracket. -/
structure Lexicon where
  number : Bytes → Prop
  string : Bytes → Prop
  trailingComma : Prop

def Label.WF (L : Lexicon) {b : Bracket} : Label b → Prop
  | .key raw w w' => L.string raw ∧ IsBlank w ∧ IsBlank w'
  | .element => True

def Phrase.IsNil {p : Part} : Phrase p → Prop
  | .nil _ => True
  | _ => False

def Phrase.WF (L : Lexicon) {p : Part} : Phrase p → Prop
  | .number raw => L.number raw
  | .string raw => L.string raw
  | .node _ items => items.WF L
  | .nil w => IsBlank w
  | .item w label v rest => IsBlank w ∧ label.WF L ∧ v.WF L ∧ rest.WF L
  | .stop w => IsBlank w
  | .more w items => IsBlank w ∧ items.WF L ∧ (items.IsNil → L.trailingComma)
  | _ => True

section

variable (L : Lexicon) [DecidablePred L.number] [DecidablePred L.string] [Decidable L.trailingComma]

instance {b : Bracket} : (label : Label b) → Decidable (label.WF L)
  | .key _ _ _ => inferInstanceAs (Decidable (_ ∧ _ ∧ _))
  | .element => inferInstanceAs (Decidable True)

instance {p : Part} : (t : Phrase p) → Decidable t.IsNil
  | .nil _ => inferInstanceAs (Decidable True)
  | .true | .false | .null | .number _ | .string _ | .node _ _ | .item _ _ _ _ | .stop _ | .more _ _ =>
      inferInstanceAs (Decidable False)

def Phrase.decidableWF {p : Part} : (t : Phrase p) → Decidable (t.WF L)
  | .number raw => inferInstanceAs (Decidable (L.number raw))
  | .string raw => inferInstanceAs (Decidable (L.string raw))
  | .node _ items => items.decidableWF
  | .nil w => inferInstanceAs (Decidable (IsBlank w))
  | .item w label v rest =>
      @instDecidableAnd _ _ (inferInstanceAs (Decidable (IsBlank w)))
        (@instDecidableAnd _ _ (inferInstanceAs (Decidable (label.WF L)))
          (@instDecidableAnd _ _ v.decidableWF rest.decidableWF))
  | .stop w => inferInstanceAs (Decidable (IsBlank w))
  | .more w items =>
      @instDecidableAnd _ _ (inferInstanceAs (Decidable (IsBlank w)))
        (@instDecidableAnd _ _ items.decidableWF
          (inferInstanceAs (Decidable (items.IsNil → L.trailingComma))))
  | .true | .false | .null => inferInstanceAs (Decidable True)

instance {p : Part} (t : Phrase p) : Decidable (t.WF L) := t.decidableWF L

end

/-! ### Objects without blanks -/

def restOf : List (Bytes × Value) → Phrase (.rest .curly)
  | [] => .stop []
  | (name, v) :: members => .more [] (.item [] (.key name [] []) v (restOf members))

def object : List (Bytes × Value) → Value
  | [] => .node .curly (.nil [])
  | (name, v) :: members => .node .curly (.item [] (.key name [] []) v (restOf members))

theorem restOf_wf {L : Lexicon} {members : List (Bytes × Value)}
    (h : ∀ m ∈ members, L.string m.1 ∧ m.2.WF L) : (restOf members).WF L := by
  induction members with
  | nil => exact isBlank_nil
  | cons m members ih =>
      obtain ⟨hname, hv⟩ := h m List.mem_cons_self
      exact ⟨isBlank_nil, ⟨isBlank_nil, ⟨hname, isBlank_nil, isBlank_nil⟩, hv,
        ih fun m' hm' => h m' (List.mem_cons_of_mem _ hm')⟩, False.elim⟩

theorem object_wf {L : Lexicon} {members : List (Bytes × Value)}
    (h : ∀ m ∈ members, L.string m.1 ∧ m.2.WF L) : (object members).WF L := by
  cases members with
  | nil => exact isBlank_nil
  | cons m members =>
      obtain ⟨hname, hv⟩ := h m List.mem_cons_self
      exact ⟨isBlank_nil, ⟨hname, isBlank_nil, isBlank_nil⟩, hv,
        restOf_wf fun m' hm' => h m' (List.mem_cons_of_mem _ hm')⟩

/-! ### Lexicons -/

/-- A lexicon that allows more. -/
structure Lexicon.Le (L L' : Lexicon) : Prop where
  number : ∀ {raw}, L.number raw → L'.number raw
  string : ∀ {raw}, L.string raw → L'.string raw
  trailingComma : L.trailingComma → L'.trailingComma

theorem Label.WF.mono {L L' : Lexicon} (h : L.Le L') {b : Bracket} {label : Label b}
    (hwf : label.WF L) : label.WF L' := by
  cases label with
  | key raw w w' => exact ⟨h.string hwf.1, hwf.2⟩
  | element => trivial

theorem Phrase.WF.mono {L L' : Lexicon} (h : L.Le L') {p : Part} {t : Phrase p}
    (hwf : t.WF L) : t.WF L' := by
  induction t with
  | number raw => exact h.number hwf
  | string raw => exact h.string hwf
  | node b items ih => exact ih hwf
  | item w label v rest ihv ihrest =>
      obtain ⟨hw, hlabel, hv, hrest⟩ := hwf
      exact ⟨hw, hlabel.mono h, ihv hv, ihrest hrest⟩
  | more w items ih =>
      obtain ⟨hw, hitems, hnil⟩ := hwf
      exact ⟨hw, ih hitems, fun hn => h.trailingComma (hnil hn)⟩
  | nil w => exact hwf
  | stop w => exact hwf
  | true => trivial
  | false => trivial
  | null => trivial

/-! ### Members -/

/-- A value, and where it starts in the text. -/
structure Located where
  off : ℕ
  value : Value

/-- The items of a part of a text that starts at `i`, with the names they have. -/
def Phrase.entries {p : Part} : Phrase p → ℕ → List (Option Bytes × Located)
  | .item (b := b) w label v rest, i =>
      let j := i + w.length + label.text.length
      let name := match b, label with
        | .curly, .key raw _ _ => some raw
        | .square, .element => none
      (name, ⟨j, v⟩) :: rest.entries (j + v.text.length)
  | .more w items, i => items.entries (i + w.length + 1)
  | _, _ => []

def Located.members : Located → List (Option Bytes × Located)
  | ⟨i, .node .curly items⟩ => items.entries (i + 1)
  | _ => []

def Located.member (v : Located) (name : Bytes) : Option Located :=
  (v.members.find? fun e => e.1 = some name).map Prod.snd

def Located.at (v : Located) : List Bytes → Option Located
  | [] => some v
  | name :: path => (v.member name).bind fun w => w.at path

theorem append_prefix_drop {a b s : Bytes} {i : ℕ} (h : a ++ b <+: s.drop i) :
    a <+: s.drop i ∧ b <+: s.drop (i + a.length) := by
  obtain ⟨t, ht⟩ := h
  refine ⟨⟨b ++ t, by rw [← ht, List.append_assoc]⟩, ⟨t, ?_⟩⟩
  rw [← List.drop_drop, ← ht, List.append_assoc, List.drop_left]

theorem items_text_drop {b : Bracket} {items : Phrase (.items b)} {s : Bytes} {i : ℕ}
    (h : (Phrase.node b items).text <+: s.drop i) : items.text <+: s.drop (i + 1) := by
  have hsplit : [b.openByte] ++ (items.text ++ [b.closeByte]) <+: s.drop i := h
  exact (append_prefix_drop (append_prefix_drop hsplit).2).1

theorem item_text_drop {b : Bracket} {w : Bytes} {label : Label b} {v : Value}
    {rest : Phrase (.rest b)} {s : Bytes} {i : ℕ}
    (h : (Phrase.item w label v rest).text <+: s.drop i) :
    label.text <+: s.drop (i + w.length) ∧
      v.text <+: s.drop (i + w.length + label.text.length) ∧
      rest.text <+: s.drop (i + w.length + label.text.length + v.text.length) := by
  obtain ⟨-, h⟩ := append_prefix_drop h
  obtain ⟨hlabel, h⟩ := append_prefix_drop h
  exact ⟨hlabel, append_prefix_drop h⟩

theorem more_text_drop {b : Bracket} {w : Bytes} {items : Phrase (.items b)} {s : Bytes} {i : ℕ}
    (h : (Phrase.more w items).text <+: s.drop i) : items.text <+: s.drop (i + w.length + 1) := by
  obtain ⟨-, h⟩ := append_prefix_drop h
  have hsplit : [Ascii.comma] ++ items.text <+: s.drop (i + w.length) := h
  exact (append_prefix_drop hsplit).2

structure Located.In (v : Located) (L : Lexicon) (d : ℕ) (s : Bytes) : Prop where
  wf : v.value.WF L
  depth : v.value.depth ≤ d
  text : v.value.text <+: s.drop v.off

theorem Phrase.entries_in {L : Lexicon} {p : Part} (t : Phrase p) {s : Bytes} {i d : ℕ}
    (hwf : t.WF L) (hd : t.depth ≤ d) (hs : t.text <+: s.drop i) :
    ∀ e ∈ t.entries i, e.2.In L d s := by
  induction t generalizing i with
  | @item b w label v rest ihv ihrest =>
      obtain ⟨-, -, hv, hrest⟩ := hwf
      simp only [Phrase.depth, Nat.max_le] at hd
      obtain ⟨-, hsv, hsrest⟩ := item_text_drop hs
      intro e he
      rcases List.mem_cons.mp he with rfl | he
      · exact ⟨hv, hd.1, hsv⟩
      · exact ihrest hrest hd.2 hsrest e he
  | @more b w items ih =>
      obtain ⟨-, hitems, -⟩ := hwf
      exact ih hitems hd (more_text_drop hs)
  | nil w => exact nofun
  | stop w => exact nofun
  | node b items ih => exact nofun
  | number raw => exact nofun
  | string raw => exact nofun
  | true => exact nofun
  | false => exact nofun
  | null => exact nofun

theorem Located.members_in {L : Lexicon} {d : ℕ} {s : Bytes} {v : Located} (h : v.In L d s) :
    ∀ e ∈ v.members, e.2.In L d s := by
  obtain ⟨i, v⟩ := v
  cases v with
  | node b items =>
      cases b with
      | curly =>
          have hdepth : items.depth + 1 ≤ d := h.depth
          exact items.entries_in h.wf (by omega) (items_text_drop h.text)
      | square => exact nofun
  | number raw => exact nofun
  | string raw => exact nofun
  | true => exact nofun
  | false => exact nofun
  | null => exact nofun

theorem Located.member_in {L : Lexicon} {d : ℕ} {s : Bytes} {v u : Located} (h : v.In L d s)
    {name : Bytes} (hu : v.member name = some u) : u.In L d s := by
  simp only [Located.member, Option.map_eq_some_iff] at hu
  obtain ⟨e, he, rfl⟩ := hu
  exact Located.members_in h e (List.mem_of_find?_eq_some he)

/-! ### Members, wherever they lie -/

/-- Where a part of a text starts only moves its items. -/
theorem Phrase.entries_values {p : Part} (t : Phrase p) (i j : ℕ) :
    (t.entries i).map (fun e => (e.1, e.2.value)) = (t.entries j).map fun e => (e.1, e.2.value) := by
  induction t generalizing i j with
  | item w label v rest ihv ihrest =>
      simp only [Phrase.entries, List.map_cons]
      exact congrArg _ (ihrest _ _)
  | more w items ih => exact ih _ _
  | _ => rfl

def Phrase.pairs (v : Value) : List (Option Bytes × Value) :=
  (Located.members ⟨0, v⟩).map fun e => (e.1, e.2.value)

theorem Located.members_values (u : Located) :
    u.members.map (fun e => (e.1, e.2.value)) = u.value.pairs := by
  obtain ⟨i, v⟩ := u
  cases v with
  | node b items =>
      cases b with
      | curly => exact items.entries_values _ _
      | square => rfl
  | _ => rfl

/-- The first member of that name. -/
def Phrase.get (v : Value) (name : Bytes) : Option Value :=
  (v.pairs.find? fun e => e.1 = some name).map Prod.snd

theorem Located.member_value (u : Located) (name : Bytes) :
    (u.member name).map (·.value) = u.value.get name := by
  rw [Phrase.get, ← u.members_values, List.find?_map, Located.member, Option.map_map,
    Option.map_map]
  rfl

/-- A member of a value is as well formed as the value. -/
theorem wf_of_get {L : Lexicon} {v w : Value} {name : Bytes} (h : v.WF L)
    (hget : v.get name = some w) : w.WF L := by
  rw [← Located.member_value ⟨0, v⟩, Option.map_eq_some_iff] at hget
  obtain ⟨u, hu, rfl⟩ := hget
  have hin : Located.In ⟨0, v⟩ L v.depth v.text := ⟨h, le_rfl, List.prefix_refl _⟩
  exact (Located.member_in hin hu).wf

/-- It is nested less deep, and its text is a part of the text. -/
theorem part_of_get {L : Lexicon} {v w : Value} {name : Bytes} (h : v.WF L)
    (hget : v.get name = some w) : w.depth < v.depth ∧ w.text <:+: v.text := by
  rw [← Located.member_value ⟨0, v⟩, Option.map_eq_some_iff] at hget
  obtain ⟨u, hu, rfl⟩ := hget
  simp only [Located.member, Option.map_eq_some_iff] at hu
  obtain ⟨e, he, rfl⟩ := hu
  have hmem := List.mem_of_find?_eq_some he
  cases v with
  | node b items =>
      cases b with
      | curly =>
          have htext : items.text <+: (Phrase.node .curly items).text.drop 1 :=
            items_text_drop (List.prefix_refl _)
          have hin := items.entries_in h le_rfl htext e hmem
          exact ⟨Nat.lt_succ_of_le hin.depth, hin.text.isInfix.trans (List.drop_suffix _ _).isInfix⟩
      | square => cases hmem
  | number raw => cases hmem
  | string raw => cases hmem
  | true => cases hmem
  | false => cases hmem
  | null => cases hmem

def Phrase.getAt (v : Value) : List Bytes → Option Value
  | [] => some v
  | name :: path => (v.get name).bind fun w => w.getAt path

theorem Located.at_value (u : Located) (path : List Bytes) :
    (u.at path).map (·.value) = u.value.getAt path := by
  induction path generalizing u with
  | nil => rfl
  | cons name path ih =>
      rw [Located.at, Phrase.getAt, ← u.member_value]
      cases u.member name with
      | none => rfl
      | some w => exact ih w

/-! ### The strict lexicon -/

def IsDigits (ds : Bytes) : Prop := ds ≠ [] ∧ ∀ c ∈ ds, isDigit c = true

/-- `number` of RFC 8259. -/
structure Numeral where
  sign : Bytes
  int : Bytes
  frac : Bytes
  exp : Bytes
  sign_eq : sign = [] ∨ sign = [minus]
  int_eq : int = [48] ∨ IsDigits int ∧ int.head? ≠ some 48
  frac_eq : frac = [] ∨ ∃ ds, frac = dot :: ds ∧ IsDigits ds
  exp_eq : exp = [] ∨ ∃ e sg ds, exp = e :: (sg ++ ds) ∧ toLower e = 101 ∧
    (sg = [] ∨ sg = [plus] ∨ sg = [minus]) ∧ IsDigits ds

def Numeral.text (n : Numeral) : Bytes := n.sign ++ (n.int ++ (n.frac ++ n.exp))

/-- `char` of RFC 8259: one character between the quotes of a string. Bytes from
128 on, which spell characters beyond ASCII, stand for themselves. -/
inductive IsChar : Bytes → Prop
  | plain {c : UInt8} : 32 ≤ c → c ≠ quote → c ≠ backslash → IsChar [c]
  | escape {c : UInt8} : c ∈ quote :: backslash :: slash :: ascii "bfnrt" → IsChar [backslash, c]
  | unicode {a b c d : UInt8} : isHexDigit a → isHexDigit b → isHexDigit c → isHexDigit d →
      IsChar [backslash, 117, a, b, c, d]

inductive IsChars : Bytes → Prop
  | nil : IsChars []
  | cons {u s : Bytes} : IsChar u → IsChars s → IsChars (u ++ s)

def strict : Lexicon where
  number raw := ∃ n : Numeral, raw = n.text
  string := IsChars
  trailingComma := False

end Json

end OtiKiosk
