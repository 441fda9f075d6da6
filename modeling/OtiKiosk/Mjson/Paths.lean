import OtiKiosk.Mjson.Lookup

/-!
Lookups by paths of any number of names. The position in the path moves on at a key
that has the next name and lies as deep as that name does in the path; it never moves
back, so the keys that matched need not lie inside of one another. A path whose
members are all there still leads to the value at its end.
-/

namespace OtiKiosk

open Ascii Json

/-- A key of a text: how many brackets are open there, its name, and the value behind it. -/
structure KeyAt where
  depth : ℕ
  name : Bytes
  value : Located

/-- The keys of a part of a text that starts at `i`, `d` brackets deep, in the order of the text. -/
def Json.Phrase.keys {p : Part} : Phrase p → ℕ → ℕ → List KeyAt
  | .node _ items, i, d => items.keys (i + 1) (d + 1)
  | .item (b := b) w label v rest, i, d =>
      let j := i + w.length + label.text.length
      let own := match b, label with
        | .curly, .key raw _ _ => [⟨d, raw, ⟨j, v⟩⟩]
        | .square, .element => []
      own ++ (v.keys j d ++ rest.keys (j + v.text.length) d)
  | .more w items, i, d => items.keys (i + w.length + 1) d
  | _, _, _ => []

/-- A lookup on its way through the keys: the names that are left and how many have matched, or
what was found. -/
inductive Walk
  | seeking (names : List Bytes) (matched : ℕ)
  | found (v : Located)

namespace Walk

/-- Behind a key that matched: what is left is looked for, or the value is found. -/
def go (v : Located) (matched : ℕ) : List Bytes → Walk
  | [] => .found v
  | n :: names => .seeking (n :: names) matched

def key : Walk → KeyAt → Walk
  | .found v, _ => .found v
  | .seeking [] matched, _ => .seeking [] matched
  | .seeking (n :: names) matched, k =>
      if k.depth = matched + 1 ∧ k.name = n then go k.value (matched + 1) names
      else .seeking (n :: names) matched

def result : Walk → Option Located
  | .found v => some v
  | .seeking _ _ => none

theorem found_keys (v : Located) (ks : List KeyAt) : ks.foldl key (.found v) = .found v := by
  induction ks with
  | nil => rfl
  | cons k ks ih => exact ih

theorem key_matches {k : KeyAt} {n : Bytes} {matched : ℕ} (hdepth : k.depth = matched + 1)
    (hname : k.name = n) (names : List Bytes) :
    (seeking (n :: names) matched).key k = go k.value (matched + 1) names := by
  rw [key, if_pos ⟨hdepth, hname⟩]

theorem key_of_not {k : KeyAt} {n : Bytes} {matched : ℕ}
    (h : ¬(k.depth = matched + 1 ∧ k.name = n)) (names : List Bytes) :
    (seeking (n :: names) matched).key k = .seeking (n :: names) matched := by
  rw [key, if_neg h]

end Walk

/-- What a path of names leads to. -/
def Json.Located.walk (u : Located) (names : List Bytes) : Option Located :=
  ((u.value.keys u.off 0).foldl Walk.key (.seeking names 0)).result

/-! ### The callback walks -/

def Walk.Tracks (g : GetData) (d : ℕ) : Walk → Prop
  | .seeking names matched =>
      names ≠ [] ∧ (∀ n ∈ names, IsName n) ∧ Seeking g names ((d : ℤ) - matched)
  | .found v => g.found = .of (some v)

namespace Walk.Tracks

variable {g : GetData} {d : ℕ} {w : Walk} {s : Bytes}

/-- An event that only leads to another depth, or nowhere. -/
theorem move (h : w.Tracks g d) {e : Event} {d' : ℕ}
    (hseek : ∀ n names (depth : ℤ), Seeking g (n :: names) depth →
      Seeking (mjsonGetCb s g e) (n :: names) (depth + (d' - d))) :
    w.Tracks (mjsonGetCb s g e) d' := by
  cases w with
  | found v => exact found_some_stays (s := s) h [e]
  | seeking names matched =>
      obtain ⟨hne, hnames, hg⟩ := h
      obtain ⟨n, names, rfl⟩ := List.exists_cons_of_ne_nil hne
      have hmove := hseek n names _ hg
      have hdepth : (d : ℤ) - matched + (d' - d) = d' - matched := by omega
      rw [hdepth] at hmove
      exact ⟨hne, hnames, hmove⟩

theorem scalar (h : w.Tracks g d) (tok : Tok) (htok : tok.isValue = true) (i len : ℕ) :
    w.Tracks (mjsonGetCb s g ⟨tok, i, len⟩) d := by
  refine h.move fun n names depth hg => ?_
  rw [getCb_scalar hg.tok tok htok hg.not_target, sub_self, add_zero]
  exact hg

theorem enter (h : w.Tracks g d) (b : Bracket) (i len : ℕ) :
    w.Tracks (mjsonGetCb s g ⟨b.openTok, i, len⟩) (d + 1) := by
  refine h.move fun n names depth hg => ?_
  have hcur : g.cur ≠ lbracket := by
    rw [hg.cur_cons]
    decide
  have hdepth := hg.depth
  rw [getCb_open hg.tok b hg.not_target fun _ => hcur]
  exact hg.deeper (by push_cast; omega)

theorem leave (h : w.Tracks g (d + 1)) (b : Bracket) (i len : ℕ) :
    w.Tracks (mjsonGetCb s g ⟨b.closeTok, i, len⟩) d := by
  refine h.move fun n names depth hg => ?_
  have hdepth := hg.depth
  rw [getCb_close hg.tok b (.inl hg.obj)]
  exact hg.deeper (by push_cast; omega)

theorem comma (h : w.Tracks g d) (i len : ℕ) : w.Tracks (mjsonGetCb s g ⟨.comma, i, len⟩) d := by
  refine h.move fun n names depth hg => ?_
  rw [sub_self, add_zero]
  exact hg.comma s i len

/-- A key, with the colon behind it and the value, if the walk ends there. -/
theorem key (h : w.Tracks g d) {raw : Bytes} {i : ℕ} (hs : quoted raw <+: s.drop i) (c n : ℕ)
    (v : Located) :
    (w.key ⟨d, raw, v⟩).Tracks
        (mjsonGetCb s (mjsonGetCb s g ⟨.key, i, raw.length + 2⟩) ⟨.colon, c, n⟩) d ∨
      w.key ⟨d, raw, v⟩ = .found v ∧
        Seeking (mjsonGetCb s (mjsonGetCb s g ⟨.key, i, raw.length + 2⟩) ⟨.colon, c, n⟩) [] 0 := by
  cases w with
  | found u => exact .inl (found_some_stays (s := s) h [⟨.key, i, raw.length + 2⟩, ⟨.colon, c, n⟩])
  | seeking names matched =>
      obtain ⟨hne, hnames, hg⟩ := h
      obtain ⟨m, names, rfl⟩ := List.exists_cons_of_ne_nil hne
      obtain ⟨hm, hrest⟩ := List.forall_mem_cons.mp hnames
      by_cases hkey : d = matched + 1 ∧ raw = m
      · obtain ⟨hd, rfl⟩ := hkey
        have hlevel : (d : ℤ) - matched = 1 := by omega
        rw [hlevel] at hg
        have hstep := hg.step hm hs rfl
        rw [getCb_colon hstep.tok, Walk.key_matches (k := ⟨d, raw, v⟩) hd rfl]
        cases names with
        | nil => exact .inr ⟨rfl, hstep⟩
        | cons m' names =>
            have hlevel' : (d : ℤ) - (matched + 1 : ℕ) = 0 := by omega
            refine .inl ⟨List.cons_ne_nil _ _, hrest, ?_⟩
            rw [hlevel']
            exact hstep
      · have hno : ¬g.KeyMatches s i (raw.length + 2) := fun hmatch => by
          obtain ⟨hd, hraw⟩ := (hg.keyMatches_iff hm hs).mp hmatch
          exact hkey ⟨by omega, hraw⟩
        rw [getCb_key hg.tok hno, getCb_colon hg.tok, Walk.key_of_not hkey]
        exact .inl ⟨hne, hnames, hg⟩

/-- Through any part of a text the callback walks by the keys. -/
theorem events (h : w.Tracks g d) {p : Part} (t : Phrase p) {i : ℕ} (hs : t.text <+: s.drop i) :
    ((t.keys i d).foldl Walk.key w).Tracks ((t.events i).foldl (mjsonGetCb s) g) d := by
  induction t generalizing i d g w with
  | true => exact h.scalar (s := s) .true rfl i 4
  | false => exact h.scalar (s := s) .false rfl i 5
  | null => exact h.scalar (s := s) .null rfl i 4
  | number raw => exact h.scalar (s := s) .number rfl i raw.length
  | string raw => exact h.scalar (s := s) .string rfl i (raw.length + 2)
  | nil w => exact h
  | stop w => exact h
  | node b items ih =>
      simp only [Phrase.keys, Phrase.events, List.foldl_cons, List.foldl_append, List.foldl_nil]
      exact (ih (h.enter b i 1) (items_text_drop hs)).leave b _ 1
  | @item b blank label v rest ihv ihrest =>
      obtain ⟨hlabel, hv, hrest⟩ := item_text_drop hs
      cases label with
      | element =>
          simp only [Phrase.keys, Phrase.events, Label.events, List.foldl_append, List.foldl_nil]
          exact ihrest (ihv h hv) hrest
      | key raw w₁ w₂ =>
          obtain ⟨hkey, -⟩ := append_prefix_drop hlabel
          simp only [Phrase.keys, Phrase.events, Label.events, List.foldl_append, List.foldl_cons,
            List.foldl_nil]
          rcases h.key hkey (i + blank.length + (raw.length + 2) + w₁.length) 1
            ⟨i + blank.length + (Label.key raw w₁ w₂).text.length, v⟩ with hnext | ⟨hfound, hseek⟩
          · exact ihrest (ihv hnext hv) hrest
          · -- the value behind the last name
            rw [hfound, Walk.found_keys, Walk.found_keys]
            exact found_some_stays (seek_target v s _ hseek) _
  | @more b blank items ih =>
      simp only [Phrase.keys, Phrase.events, List.foldl_cons]
      exact ih (h.comma _ 1) (more_text_drop hs)

end Walk.Tracks

/-! ### Members that are there -/

namespace Walk

/-- Keys that lie deeper than the next name do not match. -/
theorem skip_keys {p : Part} (t : Phrase p) (n : Bytes) (names : List Bytes) (i : ℕ) {d matched : ℕ}
    (hd : (matched : ℤ) + p.inner ≤ d) :
    (t.keys i d).foldl key (.seeking (n :: names) matched) = .seeking (n :: names) matched := by
  induction t generalizing i d with
  | node b items ih =>
      simp only [Part.inner] at hd ih
      exact ih (i + 1) (by push_cast; omega)
  | @item b blank label v rest ihv ihrest =>
      simp only [Part.inner] at hd ihv ihrest
      have hvalue := fun j => ihv j (d := d) (by omega)
      have hrest := fun j => ihrest j (d := d) hd
      cases label with
      | element => simp only [Phrase.keys, List.foldl_append, List.foldl_nil, hvalue, hrest]
      | key raw w w' =>
          have hno : ∀ v, (seeking (n :: names) matched).key ⟨d, raw, v⟩ =
              .seeking (n :: names) matched := fun v =>
            key_of_not (fun h => by have := h.1; simp only at this; omega) names
          simp only [Phrase.keys, List.foldl_append, List.foldl_cons, List.foldl_nil, hno, hvalue,
            hrest]
  | more blank items ih =>
      simp only [Part.inner] at hd ih
      exact ih _ hd
  | _ => rfl

/-- Among the members of an object, the walk goes on in the first one of the name. -/
theorem member_keys {p : Part} (t : Phrase p) (hp : p = .items .curly ∨ p = .rest .curly)
    {n : Bytes} (names : List Bytes) {i d : ℕ} {e : Option Bytes × Located}
    (h : (t.entries i).find? (fun e => e.1 = some n) = some e) :
    ∃ ks : List KeyAt, (t.keys i (d + 1)).foldl key (.seeking (n :: names) d) =
      ks.foldl key ((e.2.value.keys e.2.off (d + 1)).foldl key (go e.2 (d + 1) names)) := by
  induction t generalizing i with
  | true => rcases hp with hp | hp <;> cases hp
  | false => rcases hp with hp | hp <;> cases hp
  | null => rcases hp with hp | hp <;> cases hp
  | number raw => rcases hp with hp | hp <;> cases hp
  | string raw => rcases hp with hp | hp <;> cases hp
  | node b items ih => rcases hp with hp | hp <;> cases hp
  | nil w => cases h
  | stop w => cases h
  | @item b blank label v rest ihv ihrest =>
      obtain rfl : b = .curly := by simpa using hp
      obtain ⟨raw, w, w'⟩ := label
      simp only [Phrase.keys, List.foldl_append, List.foldl_cons, List.foldl_nil]
      by_cases hraw : raw = n
      · rw [Phrase.entries, List.find?_cons_of_pos (by simpa using hraw)] at h
        obtain rfl := Option.some.inj h
        refine ⟨rest.keys (i + blank.length + (Label.key raw w w').text.length + v.text.length)
          (d + 1), ?_⟩
        rw [key_matches rfl hraw]
      · rw [Phrase.entries, List.find?_cons_of_neg (by simpa using hraw)] at h
        have hno : ∀ v, (seeking (n :: names) d).key ⟨d + 1, raw, v⟩ = .seeking (n :: names) d :=
          fun v => key_of_not (fun h => hraw h.2) names
        rw [hno, skip_keys v n names _ (by simp only [Part.inner]; push_cast; omega)]
        exact ihrest (.inr rfl) h
  | @more b blank items ih =>
      obtain rfl : b = .curly := by simpa using hp
      exact ih (.inl rfl) h

/-- The walk enters a member. -/
theorem enter_member {u w : Located} {n : Bytes} (h : u.member n = some w) (names : List Bytes)
    (d : ℕ) :
    ∃ ks : List KeyAt, (u.value.keys u.off d).foldl key (.seeking (n :: names) d) =
      ks.foldl key ((w.value.keys w.off (d + 1)).foldl key (go w (d + 1) names)) := by
  obtain ⟨i, v⟩ := u
  obtain ⟨e, he, rfl⟩ := Option.map_eq_some_iff.mp h
  cases v with
  | node b items =>
      cases b with
      | curly => exact member_keys items (.inl rfl) names he
      | square => cases he
  | _ => cases he

/-- The walk ends at a value that is there. -/
theorem keys_at {n : Bytes} {names : List Bytes} {u v : Located} {d : ℕ}
    (h : u.at (n :: names) = some v) :
    (u.value.keys u.off d).foldl key (.seeking (n :: names) d) = .found v := by
  induction names generalizing n u d with
  | nil =>
      obtain ⟨w, hw, hv⟩ := Option.bind_eq_some_iff.mp h
      obtain rfl : w = v := Option.some.inj hv
      obtain ⟨ks, hks⟩ := enter_member hw [] d
      rw [hks, go, found_keys, found_keys]
  | cons m names ih =>
      obtain ⟨w, hw, hv⟩ := Option.bind_eq_some_iff.mp h
      obtain ⟨ks, hks⟩ := enter_member hw (m :: names) d
      rw [hks, go, ih hv, found_keys]

end Walk

section

variable {s : Bytes} {len i : ℕ} {v : Value}

/-- The callback ends where the walk does. -/
theorem Denotes.walk_found (h : Denotes s len v i) {names : List Bytes} (hne : names ≠ [])
    (hnames : ∀ n ∈ names, IsName n) :
    ((v.events i).foldl (mjsonGetCb s) (.start (pathOf names))).found =
      .of (Located.walk ⟨i, v⟩ names) := by
  have hstart : (Walk.seeking names 0).Tracks (.start (pathOf names)) 0 :=
    ⟨hne, hnames, Seeking.start names⟩
  have hend := hstart.events v h.text_drop
  rw [Located.walk]
  cases hw : (v.keys i 0).foldl Walk.key (.seeking names 0) with
  | found u =>
      rw [hw] at hend
      exact hend
  | seeking names' matched =>
      rw [hw] at hend
      exact hend.2.2.found_eq

/-- **A path of names** leads to the value behind the key at which a walk through the keys of the
text has matched all of them, each as deep as its place in the path says and behind the one
before. -/
theorem Denotes.mjsonFind_walk (h : Denotes s len v i) {n : Bytes} {names : List Bytes}
    (hnames : ∀ m ∈ n :: names, IsName m) :
    mjsonFind s len (pathOf (n :: names)) = .of (Located.walk ⟨i, v⟩ (n :: names)) := by
  rw [h.mjsonFind_eq]
  exact h.walk_found (List.cons_ne_nil _ _) hnames

/-- **A path whose members are there** leads to the value at its end. -/
theorem Denotes.mjsonFind_at (h : Denotes s len v i) {n : Bytes} {names : List Bytes}
    (hnames : ∀ m ∈ n :: names, IsName m) {u : Located}
    (hu : Located.at ⟨i, v⟩ (n :: names) = some u) :
    mjsonFind s len (pathOf (n :: names)) = .of (some u) := by
  rw [h.mjsonFind_eq, h.walk_found (List.cons_ne_nil _ _) hnames, Located.walk, Walk.keys_at hu]
  rfl

end

def scattered : Value :=
  object [(ascii "a", object [(ascii "b", .number (ascii "1"))]),
    (ascii "x", object [(ascii "y", object [(ascii "c", .number (ascii "2"))])])]

theorem scattered_denotes : Denotes scattered.text scattered.text.length scattered 0 :=
  .of_text (by decide) (by decide) ⟨.curly, _, rfl⟩

theorem mjsonFind_walk_scattered :
    mjsonFind scattered.text scattered.text.length (pathOf [ascii "a", ascii "b", ascii "c"]) =
      ⟨.number, 27, 1⟩ :=
  (scattered_denotes.mjsonFind_walk (by decide)).trans (by decide)

theorem mjsonFind_at_scattered :
    mjsonFind scattered.text scattered.text.length (pathOf [ascii "x", ascii "y", ascii "c"]) =
      .of (some ⟨27, .number (ascii "2")⟩) :=
  scattered_denotes.mjsonFind_at (by decide) rfl

end OtiKiosk
