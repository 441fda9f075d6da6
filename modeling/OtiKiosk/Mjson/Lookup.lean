import OtiKiosk.Mjson.Find
import OtiKiosk.Mjson.Grammar

/-!
What `mjson_find` finds in a tree. Its position in the path moves on when a name
matches and is never moved back: a path of one name leads to the first member of
that name, but a path of two names leads to the first value that has a member of
the second name, among those from the first member of the first name on.
-/

namespace OtiKiosk

open Ascii Json

/-! ### Paths -/

def IsName (n : Bytes) : Prop := ∀ c ∈ n, c ≠ nul ∧ c ≠ dot ∧ c ≠ lbracket

instance (n : Bytes) : Decidable (IsName n) := inferInstanceAs (Decidable (∀ c ∈ n, _))

/-- `.a.b.c` -/
def dotted : List Bytes → Bytes
  | [] => []
  | n :: names => dot :: (n ++ dotted names)

/-- `$.a.b.c` -/
def pathOf (names : List Bytes) : Bytes := dollar :: dotted names

theorem mjsonPlen_dotted {n : Bytes} (hn : IsName n) (names : List Bytes) :
    mjsonPlen (n ++ dotted names) = n.length := by
  have hall : ∀ c ∈ n, (c != nul && c != dot && c != lbracket) = true := by
    intro c hc
    obtain ⟨h1, h2, h3⟩ := hn c hc
    simp [h1, h2, h3]
  rw [mjsonPlen, List.takeWhile_append_of_pos hall]
  cases names with
  | nil => simp [dotted]
  | cons m names => simp [dotted]

/-! ### The state of a lookup -/

/-- Nothing found yet, `names` left to match, and `depth` levels below the one the
next name is matched at. -/
structure Seeking (g : GetData) (names : List Bytes) (depth : ℤ) : Prop where
  tok : g.tok = .invalid
  obj : g.obj = none
  ptr : g.ptr = 0
  ptrLen : g.ptrLen = 0
  path : g.path.drop g.pos = dotted names
  depth : g.d1 = g.d2 + depth
  i2 : g.i2 = 0
  i1 : 0 ≤ g.i1

theorem Seeking.start (names : List Bytes) : Seeking (.start (pathOf names)) names 0 :=
  ⟨rfl, rfl, rfl, rfl, rfl, rfl, rfl, le_rfl⟩

theorem GetData.cur_eq (g : GetData) : g.cur = (g.path.drop g.pos).headD nul := by
  rw [GetData.cur, List.getD_eq_getElem?_getD, List.headD_eq_head?_getD, List.head?_drop]

theorem Seeking.cur_nil {g : GetData} {depth : ℤ} (h : Seeking g [] depth) : g.cur = nul := by
  rw [GetData.cur_eq, h.path]
  rfl

theorem Seeking.cur_cons {g : GetData} {n : Bytes} {names : List Bytes} {depth : ℤ}
    (h : Seeking g (n :: names) depth) : g.cur = dot := by
  rw [GetData.cur_eq, h.path]
  rfl

theorem Seeking.not_target {g : GetData} {n : Bytes} {names : List Bytes} {depth : ℤ}
    (h : Seeking g (n :: names) depth) : ¬g.AtTarget := by
  rintro ⟨hcur, -⟩
  rw [h.cur_cons] at hcur
  cases hcur

theorem getD_add (s : Bytes) (i k : ℕ) : s.getD (i + k) nul = (s.drop i).getD k nul := by
  simp [List.getD_eq_getElem?_getD, List.getElem?_drop]

/-- A key matches when it is the next name and stands where names are matched. -/
theorem Seeking.keyMatches_iff {g : GetData} {n : Bytes} {names : List Bytes} {depth : ℤ}
    (h : Seeking g (n :: names) depth) (hn : IsName n) {s raw : Bytes} {i : ℕ}
    (hs : quoted raw <+: s.drop i) :
    g.KeyMatches s i (raw.length + 2) ↔ depth = 1 ∧ raw = n := by
  obtain ⟨t, ht⟩ := hs
  have hdrop : s.drop i = quote :: (raw ++ quote :: t) := by
    rw [← ht]
    simp [quoted]
  have hopen : s.getD i nul = quote := by
    have := getD_add s i 0
    rwa [hdrop] at this
  have hclose : s.getD (i + (raw.length + 2) - 1) nul = quote := by
    rw [show i + (raw.length + 2) - 1 = i + (raw.length + 1) by omega, getD_add, hdrop]
    simp
  have hraw : (s.drop (i + 1)).take raw.length = raw := by
    rw [← List.drop_drop, hdrop]
    simp
  have hpath : g.path.drop (g.pos + 1) = n ++ dotted names := by
    rw [← List.drop_drop, h.path, dotted]
    rfl
  have hdepth := h.depth
  simp only [GetData.KeyMatches, h.cur_cons, hopen, hclose, hpath, mjsonPlen_dotted hn, true_and,
    Nat.add_right_cancel_iff, Nat.add_sub_cancel, hraw]
  constructor
  · rintro ⟨hd, hlen, htake⟩
    refine ⟨by omega, ?_⟩
    rw [htake, ← hlen, List.take_left]
  · rintro ⟨rfl, rfl⟩
    exact ⟨by omega, rfl, by simp⟩

/-! ### Calls that change nothing -/

section

variable {s : Bytes} {g : GetData} (htok : g.tok = .invalid)

include htok

theorem getCb_scalar (tok : Tok) (hvalue : tok.isValue = true) (hat : ¬g.AtTarget) (off len : ℕ) :
    mjsonGetCb s g ⟨tok, off, len⟩ = g := by
  cases tok <;> simp_all [Tok.isValue, mjsonGetCb]

theorem getCb_colon (off len : ℕ) : mjsonGetCb s g ⟨.colon, off, len⟩ = g := by
  simp [mjsonGetCb, htok]

theorem getCb_key {off len : ℕ} (hkey : ¬g.KeyMatches s off len) :
    mjsonGetCb s g ⟨.key, off, len⟩ = g := by
  simp [mjsonGetCb, htok, hkey]

theorem getCb_comma (hdepth : g.d1 ≠ g.d2 + 1) (off len : ℕ) :
    mjsonGetCb s g ⟨.comma, off, len⟩ = g := by
  simp [mjsonGetCb, htok, hdepth]

theorem getCb_open (b : Bracket) (hat : ¬g.AtTarget) (hcur : g.d1 = g.d2 → g.cur ≠ lbracket)
    (off len : ℕ) :
    mjsonGetCb s g ⟨b.openTok, off, len⟩ = { g with d1 := g.d1 + 1 } := by
  cases b with
  | curly => simp [mjsonGetCb, htok, Bracket.openTok, hat]
  | square =>
      have hno : ¬(g.d1 = g.d2 ∧ g.cur = lbracket) := fun h => hcur h.1 h.2
      simp [mjsonGetCb, htok, Bracket.openTok, hat, hno]

theorem getCb_close (b : Bracket) (hat : g.obj = none ∨ g.cur ≠ nul ∨ g.d1 ≠ g.d2 + 1)
    (off len : ℕ) :
    mjsonGetCb s g ⟨b.closeTok, off, len⟩ = { g with d1 := g.d1 - 1 } := by
  rcases hat with hobj | hat
  · cases b <;> simp [mjsonGetCb, htok, Bracket.closeTok, hobj]
  · have hno : ¬(g.path.getD g.pos nul = nul ∧ g.d1 - 1 = g.d2) := by
      rintro ⟨hcur, hd⟩
      rcases hat with hat | hat
      · exact hat hcur
      · omega
    cases hobj : g.obj with
    | none => cases b <;> simp [mjsonGetCb, htok, Bracket.closeTok, hobj]
    | some start =>
        cases b <;>
          simp only [mjsonGetCb, htok, Bracket.closeTok, hobj, GetData.AtTarget, GetData.cur, hno,
            if_false, ne_eq, not_true_eq_false]

end

/-- How deep inside a value that is passed over a part of it lies at least. -/
def Json.Part.inner : Part → ℤ
  | .value => 1
  | _ => 2

theorem not_target_of_lt {g : GetData} (h : g.d2 + 1 ≤ g.d1) : ¬g.AtTarget := by
  intro hat
  have := hat.2
  omega

/-- A value below the level of the lookup is passed over. -/
theorem skip {p : Part} (t : Phrase p) (s : Bytes) (i : ℕ) {g : GetData}
    (htok : g.tok = .invalid) (hdepth : g.d2 + p.inner ≤ g.d1) :
    (t.events i).foldl (mjsonGetCb s) g = g := by
  induction t generalizing i g with
  | true => exact getCb_scalar (s := s) htok .true rfl (not_target_of_lt hdepth) i 4
  | false => exact getCb_scalar (s := s) htok .false rfl (not_target_of_lt hdepth) i 5
  | null => exact getCb_scalar (s := s) htok .null rfl (not_target_of_lt hdepth) i 4
  | number raw =>
      exact getCb_scalar (s := s) htok .number rfl (not_target_of_lt hdepth) i raw.length
  | string raw =>
      exact getCb_scalar (s := s) htok .string rfl (not_target_of_lt hdepth) i (raw.length + 2)
  | nil w => rfl
  | stop w => rfl
  | node b items ih =>
      simp only [Part.inner] at hdepth ih
      have hopen := getCb_open (s := s) htok b (not_target_of_lt hdepth) (fun h => by omega) i 1
      have hinner := ih (i + 1) (g := { g with d1 := g.d1 + 1 }) htok (by simp only; omega)
      have hclose := getCb_close (s := s) (g := { g with d1 := g.d1 + 1 }) htok b
        (.inr (.inr (by simp only; omega))) (i + 1 + items.text.length) 1
      simp only [Phrase.events, List.foldl_cons, List.foldl_append, List.foldl_nil, hopen, hinner,
        hclose, add_sub_cancel_right]
  | @item b w label v rest ihv ihrest =>
      simp only [Part.inner] at hdepth ihv ihrest
      have hlabel : (label.events (i + w.length)).foldl (mjsonGetCb s) g = g := by
        cases label with
        | element => rfl
        | key raw w w' =>
            have hkey : ∀ off len, ¬g.KeyMatches s off len := fun off len h => by
              have := h.1
              omega
            simp only [Label.events, List.foldl_cons, List.foldl_nil, getCb_key htok (hkey _ _),
              getCb_colon htok]
      simp only [Phrase.events, List.foldl_append]
      rw [hlabel, ihv _ htok (by omega), ihrest _ htok hdepth]
  | more w items ih =>
      simp only [Part.inner] at hdepth ih
      simp only [Phrase.events, List.foldl_cons]
      rw [getCb_comma htok (by omega), ih _ htok hdepth]

def Json.Part.InArray : Part → Prop
  | .items .square => True
  | .rest .square => True
  | _ => False

/-- Items at the level of the lookup, none of whose names matches, only count the commas. -/
theorem skip_items {p : Part} (t : Phrase p) (hp : p ≠ .value) (s : Bytes) (i : ℕ) {g : GetData}
    (htok : g.tok = .invalid) (hdepth : g.d1 = g.d2 + 1) (hi2 : g.i2 = 0) (hi1 : 0 ≤ g.i1)
    (hkeys : p.InArray ∨ g.cur ≠ dot) :
    ∃ k, 0 ≤ k ∧ (t.events i).foldl (mjsonGetCb s) g = { g with i1 := k } := by
  induction t generalizing i g with
  | true => exact (hp rfl).elim
  | false => exact (hp rfl).elim
  | null => exact (hp rfl).elim
  | number raw => exact (hp rfl).elim
  | string raw => exact (hp rfl).elim
  | node b items ih => exact (hp rfl).elim
  | nil w => exact ⟨g.i1, hi1, rfl⟩
  | stop w => exact ⟨g.i1, hi1, rfl⟩
  | @item b w label v rest ihv ihrest =>
      have hlabel : (label.events (i + w.length)).foldl (mjsonGetCb s) g = g := by
        cases label with
        | element => rfl
        | key raw w w' =>
            have hkey : ∀ off len, ¬g.KeyMatches s off len := by
              intro off len h
              rcases hkeys with hkeys | hcur
              · exact hkeys
              · exact hcur h.2.1
            simp only [Label.events, List.foldl_cons, List.foldl_nil, getCb_key htok (hkey _ _),
              getCb_colon htok]
      have hvalue := fun j => skip v s j htok (g := g) (by simp only [Part.inner]; omega)
      have hkeys' : (Part.rest b).InArray ∨ g.cur ≠ dot := by
        cases b <;> exact hkeys
      simp only [Phrase.events, List.foldl_append, hlabel, hvalue]
      exact ihrest (Part.rest_ne_value b) _ htok hdepth hi2 hi1 hkeys'
  | @more b w items ih =>
      have hcomma : mjsonGetCb s g ⟨.comma, i + w.length, 1⟩ = { g with i1 := g.i1 + 1 } := by
        have hno : g.i1 + 1 ≠ 0 := by omega
        simp only [mjsonGetCb, htok, hdepth, hi2, hno, ne_eq, not_true_eq_false, if_false, if_true]
      have hkeys' : (Part.items b).InArray ∨ { g with i1 := g.i1 + 1 }.cur ≠ dot := by
        cases b <;> exact hkeys
      obtain ⟨k, hk, hfold⟩ := ih (g := { g with i1 := g.i1 + 1 }) (Part.items_ne_value b) (i + w.length + 1) htok
        hdepth hi2 (by simp only; omega) hkeys'
      refine ⟨k, hk, ?_⟩
      simp only [Phrase.events, List.foldl_cons, hcomma, hfold]

/-- Once something is found, nothing changes. -/
theorem found_stays {s : Bytes} {g : GetData} (htok : g.tok ≠ .invalid) (es : List Event) :
    es.foldl (mjsonGetCb s) g = g := by
  induction es with
  | nil => rfl
  | cons e es ih =>
      have hcb : mjsonGetCb s g e = g := by
        rw [mjsonGetCb, if_pos htok]
      rw [List.foldl_cons, hcb, ih]

/-! ### Finding a member -/

def Json.Phrase.tok : Value → Tok
  | .true => .true
  | .false => .false
  | .null => .null
  | .number _ => .number
  | .string _ => .string
  | .node b _ => b.openTok

def Found.of : Option Located → Found
  | .some v => ⟨v.value.tok, v.off, v.value.text.length⟩
  | .none => .none

def GetData.found (g : GetData) : Found := ⟨g.tok, g.ptr, g.ptrLen⟩

theorem Seeking.found_eq {g : GetData} {names : List Bytes} {depth : ℤ}
    (h : Seeking g names depth) : g.found = .of none := by
  simp [GetData.found, Found.of, Found.none, h.tok, h.ptr, h.ptrLen]

theorem Seeking.deeper {g : GetData} {names : List Bytes} {depth depth' : ℤ}
    (h : Seeking g names depth) {d1 : ℤ} (hd1 : d1 = g.d2 + depth') :
    Seeking { g with d1 := d1 } names depth' :=
  ⟨h.tok, h.obj, h.ptr, h.ptrLen, h.path, hd1, h.i2, h.i1⟩

theorem seek_scalar (tok : Tok) (hvalue : tok.isValue = true) (s : Bytes) (i len : ℕ)
    {g : GetData} (h : Seeking g [] 0) :
    (mjsonGetCb s g ⟨tok, i, len⟩).found = ⟨tok, i, len⟩ := by
  have hat : g.AtTarget := ⟨h.cur_nil, by have := h.depth; omega⟩
  have htok := h.tok
  cases tok <;> simp_all [Tok.isValue, mjsonGetCb, GetData.found]

theorem close_target {g : GetData} (htok : g.tok = .invalid) {start : ℕ}
    (hobj : g.obj = some start) (hcur : g.cur = nul) (hdepth : g.d1 = g.d2 + 1) (s : Bytes)
    (b : Bracket) (off len : ℕ) :
    (mjsonGetCb s g ⟨b.closeTok, off, len⟩).found = ⟨b.openTok, start, off - start + 1⟩ := by
  have hcur' : g.path.getD g.pos nul = nul := hcur
  have hd : g.d2 + 1 - 1 = g.d2 := by omega
  cases b <;>
    simp only [mjsonGetCb, htok, Bracket.closeTok, Bracket.openTok, hobj, GetData.AtTarget,
      GetData.cur, hcur', hdepth, hd, GetData.found, and_self, if_true, ne_eq, not_true_eq_false,
      if_false, reduceCtorEq]

/-- The value looked for is found where it is. -/
theorem seek_target (v : Value) (s : Bytes) (i : ℕ) {g : GetData} (h : Seeking g [] 0) :
    ((v.events i).foldl (mjsonGetCb s) g).found = .of (some ⟨i, v⟩) := by
  cases v with
  | true => exact seek_scalar .true rfl s i 4 h
  | false => exact seek_scalar .false rfl s i 5 h
  | null => exact seek_scalar .null rfl s i 4 h
  | number raw => exact seek_scalar .number rfl s i raw.length h
  | string raw =>
      have hlen : (Phrase.string raw).text.length = raw.length + 2 := by simp [Phrase.text, quoted]
      simp only [Found.of, hlen]
      exact seek_scalar .string rfl s i (raw.length + 2) h
  | node b items =>
      have hdepth : g.d1 = g.d2 := by simpa using h.depth
      have hat : g.AtTarget := ⟨h.cur_nil, hdepth⟩
      have hopen : mjsonGetCb s g ⟨b.openTok, i, 1⟩ =
          { g with obj := some i, d1 := g.d1 + 1 } := by
        have hno : ¬(g.d1 = g.d2 ∧ g.cur = lbracket) := by
          rw [h.cur_nil]
          rintro ⟨-, hcur⟩
          cases hcur
        cases b <;> simp [mjsonGetCb, h.tok, Bracket.openTok, hat, hno]
      have hcur : { g with obj := some i, d1 := g.d1 + 1 }.cur = nul := h.cur_nil
      obtain ⟨k, hk, hfold⟩ := skip_items items (Part.items_ne_value b) s (i + 1)
        (g := { g with obj := some i, d1 := g.d1 + 1 }) h.tok (by simp only; omega) h.i2 h.i1
        (.inr (by rw [hcur]; decide))
      have hlen : (Phrase.node b items).text.length = items.text.length + 2 := by
        simp [Phrase.text]
      simp only [Phrase.events, List.foldl_cons, List.foldl_append, List.foldl_nil, hopen, hfold]
      rw [close_target (g := { g with obj := some i, d1 := g.d1 + 1, i1 := k }) h.tok rfl h.cur_nil
        (by simp only; omega), Found.of, hlen, Phrase.tok]
      congr 1
      omega

theorem Seeking.step {g : GetData} {n : Bytes} {names : List Bytes}
    (h : Seeking g (n :: names) 1) (hn : IsName n) {s raw : Bytes} {i : ℕ}
    (hs : quoted raw <+: s.drop i) (hraw : raw = n) :
    Seeking (mjsonGetCb s g ⟨.key, i, raw.length + 2⟩) names 0 := by
  have hkey : g.KeyMatches s i (raw.length + 2) := (h.keyMatches_iff hn hs).mpr ⟨rfl, hraw⟩
  have hcb : mjsonGetCb s g ⟨.key, i, raw.length + 2⟩ =
      { g with d2 := g.d2 + 1, pos := g.pos + (raw.length + 1) } := by
    simp [mjsonGetCb, h.tok, hkey]
  rw [hcb]
  refine ⟨h.tok, h.obj, h.ptr, h.ptrLen, ?_, ?_, h.i2, h.i1⟩
  · rw [← List.drop_drop, h.path, dotted, hraw]
    simp
  · have := h.depth
    simp only
    omega

theorem Seeking.comma {g : GetData} {names : List Bytes} {depth : ℤ} (h : Seeking g names depth)
    (s : Bytes) (off len : ℕ) : Seeking (mjsonGetCb s g ⟨.comma, off, len⟩) names depth := by
  have hi1 := h.i1
  have hno : g.i1 + 1 ≠ g.i2 := by
    rw [h.i2]
    omega
  have hcb : mjsonGetCb s g ⟨.comma, off, len⟩ = g ∨
      mjsonGetCb s g ⟨.comma, off, len⟩ = { g with i1 := g.i1 + 1 } := by
    by_cases hd : g.d1 = g.d2 + 1
    · right
      simp [mjsonGetCb, h.tok, hd, hno]
    · exact .inl (getCb_comma h.tok hd off len)
  rcases hcb with hcb | hcb <;> rw [hcb]
  · exact h
  · exact ⟨h.tok, h.obj, h.ptr, h.ptrLen, h.path, h.depth, h.i2, by simp only; omega⟩

/-- The search for a name among the members of an object: no member has it, or the lookup goes on
at the value of the first one that has. -/
theorem seek_member {n : Bytes} {names : List Bytes} (hn : IsName n) {p : Part} (t : Phrase p)
    (hp : p = .items .curly ∨ p = .rest .curly) {s : Bytes} {i : ℕ} (hs : t.text <+: s.drop i)
    {g : GetData} (h : Seeking g (n :: names) 1) :
    ((∀ e ∈ t.entries i, e.1 ≠ some n) ∧
        Seeking ((t.events i).foldl (mjsonGetCb s) g) (n :: names) 1) ∨
      ∃ pre v, ∃ (rest : Phrase (.rest .curly)) (j : ℕ) (g' : GetData),
        t.entries i = pre ++ (some n, v) :: rest.entries j ∧ (∀ e ∈ pre, e.1 ≠ some n) ∧
        v.value.text <+: s.drop v.off ∧ rest.text <+: s.drop j ∧ Seeking g' names 0 ∧
        (t.events i).foldl (mjsonGetCb s) g =
          (rest.events j).foldl (mjsonGetCb s) ((v.value.events v.off).foldl (mjsonGetCb s) g') := by
  induction t generalizing i g with
  | true => rcases hp with hp | hp <;> cases hp
  | false => rcases hp with hp | hp <;> cases hp
  | null => rcases hp with hp | hp <;> cases hp
  | number raw => rcases hp with hp | hp <;> cases hp
  | string raw => rcases hp with hp | hp <;> cases hp
  | node b items ih => rcases hp with hp | hp <;> cases hp
  | nil w =>
      refine .inl ⟨?_, h⟩
      intro e he
      cases he
  | stop w =>
      refine .inl ⟨?_, h⟩
      intro e he
      cases he
  | @item b w label v rest ihv ihrest =>
      obtain rfl : b = .curly := by simpa using hp
      obtain ⟨hlabel, hv, hrest⟩ := item_text_drop hs
      obtain ⟨raw, w₁, w₂⟩ := label
      obtain ⟨hkey, -⟩ := append_prefix_drop hlabel
      simp only [Phrase.entries, Phrase.events, Label.events, List.foldl_append, List.foldl_cons,
        List.foldl_nil]
      by_cases hraw : raw = n
      · have hstep := h.step hn hkey hraw
        refine .inr ⟨[], ⟨i + w.length + (Label.key raw w₁ w₂).text.length, v⟩, rest, _, _, ?_, ?_,
          hv, hrest, hstep, ?_⟩
        · rw [hraw, List.nil_append]
        · intro e he
          cases he
        · rw [getCb_colon hstep.tok]
      · have hno : ¬g.KeyMatches s (i + w.length) (raw.length + 2) := fun hm =>
          hraw ((h.keyMatches_iff hn hkey).mp hm).2
        -- nothing inside of another member matches, for it is deeper
        have hskip := fun j => skip v s j h.tok
          (by have := h.depth; simp only [Part.inner]; omega)
        rw [getCb_key h.tok hno, getCb_colon h.tok, hskip]
        rcases ihrest (.inr rfl) hrest h with ⟨hnone, hseek⟩ | hfound
        · refine .inl ⟨?_, hseek⟩
          intro e he
          rcases List.mem_cons.mp he with rfl | he
          · simpa using hraw
          · exact hnone e he
        · obtain ⟨pre, u, rest', j, g', hentries, hpre, hu, hrest', hseek, hfold⟩ := hfound
          refine .inr ⟨(some raw, ⟨i + w.length + (Label.key raw w₁ w₂).text.length, v⟩) :: pre, u,
            rest', j, g', ?_, ?_, hu, hrest', hseek, hfold⟩
          · rw [hentries, List.cons_append]
          · intro e he
            rcases List.mem_cons.mp he with rfl | he
            · simpa using hraw
            · exact hpre e he
  | @more b w items ih =>
      obtain rfl : b = .curly := by simpa using hp
      simp only [Phrase.entries, Phrase.events, List.foldl_cons]
      exact ih (.inl rfl) (more_text_drop hs) (h.comma s _ _)

def Outcome (g : GetData) (names : List Bytes) (depth : ℤ) : Option Located → Prop
  | some v => g.found = .of (some v)
  | none => Seeking g names depth

theorem Outcome.found_eq {g : GetData} {names : List Bytes} {depth : ℤ} {r : Option Located}
    (h : Outcome g names depth r) : g.found = .of r := by
  cases r with
  | none => exact Seeking.found_eq h
  | some v => exact h

theorem tok_ne_invalid (v : Value) : v.tok ≠ .invalid := by
  cases v with
  | node b items => cases b <;> nofun
  | _ => nofun

theorem found_some_stays {s : Bytes} {g : GetData} {v : Located} (h : g.found = .of (some v))
    (es : List Event) : (es.foldl (mjsonGetCb s) g).found = .of (some v) := by
  have htok : g.tok ≠ .invalid := by
    have h' : g.tok = v.value.tok := congrArg Found.tok h
    rw [h']
    exact tok_ne_invalid v.value
  rw [found_stays htok, h]

theorem find?_of_prefix {n : Bytes} {pre es : List (Option Bytes × Located)} {v : Located}
    (hpre : ∀ e ∈ pre, e.1 ≠ some n) :
    (pre ++ (some n, v) :: es).find? (fun e => e.1 = some n) = some (some n, v) := by
  induction pre with
  | nil => simp
  | cons e pre ih =>
      have he := hpre e (by simp)
      rw [List.cons_append, List.find?_cons_of_neg (by simpa using he)]
      exact ih fun e' he' => hpre e' (by simp [he'])

/-- An opening bracket leads one level down. -/
theorem Seeking.open {g : GetData} {n : Bytes} {names : List Bytes} (h : Seeking g (n :: names) 0)
    (s : Bytes) (b : Bracket) (off len : ℕ) :
    Seeking (mjsonGetCb s g ⟨b.openTok, off, len⟩) (n :: names) 1 := by
  have hcur : g.cur ≠ lbracket := by
    rw [h.cur_cons]
    decide
  have hdepth := h.depth
  rw [getCb_open h.tok b h.not_target fun _ => hcur]
  exact h.deeper (by omega)

/-- A closing bracket leads one level up, or comes too late to matter. -/
theorem Outcome.close {g : GetData} {names : List Bytes} {depth : ℤ} {r : Option Located}
    (h : Outcome g names depth r) (s : Bytes) (b : Bracket) (off len : ℕ) :
    Outcome (mjsonGetCb s g ⟨b.closeTok, off, len⟩) names (depth - 1) r := by
  cases r with
  | none =>
      have hseek : Seeking g names depth := h
      have hdepth := hseek.depth
      rw [getCb_close hseek.tok b (.inl hseek.obj)]
      exact hseek.deeper (by omega)
  | some v => exact found_some_stays (s := s) h [⟨b.closeTok, off, len⟩]

/-- An array has no names. -/
theorem Seeking.array {g : GetData} {n : Bytes} {names : List Bytes}
    (h : Seeking g (n :: names) 1) (items : Phrase (.items .square)) (s : Bytes) (i : ℕ) :
    Seeking ((items.events i).foldl (mjsonGetCb s) g) (n :: names) 1 := by
  obtain ⟨k, hk, hfold⟩ := skip_items items nofun s i h.tok h.depth h.i2 h.i1 (.inl trivial)
  rw [hfold]
  exact ⟨h.tok, h.obj, h.ptr, h.ptrLen, h.path, h.depth, h.i2, hk⟩

/-- In a value, at the level of the lookup, for one name. -/
theorem seek_value {n : Bytes} (hn : IsName n) (v : Value) {s : Bytes} {i : ℕ}
    (hs : v.text <+: s.drop i) {g : GetData} (h : Seeking g [n] 0) :
    Outcome ((v.events i).foldl (mjsonGetCb s) g) [n] 0 (Located.member ⟨i, v⟩ n) := by
  have hscalar : ∀ tok len, tok.isValue = true →
      Seeking (mjsonGetCb s g ⟨tok, i, len⟩) [n] 0 := by
    intro tok len htok
    rw [getCb_scalar h.tok tok htok h.not_target]
    exact h
  cases v with
  | true => exact hscalar .true 4 rfl
  | false => exact hscalar .false 5 rfl
  | null => exact hscalar .null 4 rfl
  | number raw => exact hscalar .number raw.length rfl
  | string raw => exact hscalar .string (raw.length + 2) rfl
  | node b items =>
      have hopen := h.open s b i 1
      simp only [Phrase.events, List.foldl_cons, List.foldl_append, List.foldl_nil]
      cases b with
      | square => exact Outcome.close (r := none) (hopen.array items s (i + 1)) s .square _ 1
      | curly =>
          suffices hitems : Outcome ((items.events (i + 1)).foldl (mjsonGetCb s)
              (mjsonGetCb s g ⟨Bracket.curly.openTok, i, 1⟩)) [n] 1
              (Located.member ⟨i, .node .curly items⟩ n) from hitems.close s .curly _ 1
          simp only [Located.member, Located.members]
          rcases seek_member hn items (.inl rfl) (items_text_drop hs) hopen with ⟨hnone, hseek⟩ | hfound
          · have hfind : (items.entries (i + 1)).find? (fun e => e.1 = some n) = none := by
              rw [List.find?_eq_none]
              intro e he
              simpa using hnone e he
            rw [hfind]
            exact hseek
          · obtain ⟨pre, u, rest, j, g', hentries, hpre, -, -, hseek, hfold⟩ := hfound
            rw [hentries, find?_of_prefix hpre, hfold]
            exact found_some_stays (s := s) (seek_target u.value s u.off hseek) (rest.events j)

/-- In the members of an object, once the first name of the path has matched: the first value that
has a member of the second name. -/
theorem seek_second {n : Bytes} (hn : IsName n) {p : Part} (t : Phrase p)
    (hp : p = .items .curly ∨ p = .rest .curly) {s : Bytes} {i : ℕ} (hs : t.text <+: s.drop i)
    {g : GetData} (h : Seeking g [n] 0) :
    Outcome ((t.events i).foldl (mjsonGetCb s) g) [n] 0
      ((t.entries i).findSome? fun e => e.2.member n) := by
  induction t generalizing i g with
  | true => rcases hp with hp | hp <;> cases hp
  | false => rcases hp with hp | hp <;> cases hp
  | null => rcases hp with hp | hp <;> cases hp
  | number raw => rcases hp with hp | hp <;> cases hp
  | string raw => rcases hp with hp | hp <;> cases hp
  | node b items ih => rcases hp with hp | hp <;> cases hp
  | nil w => exact h
  | stop w => exact h
  | @item b w label v rest ihv ihrest =>
      obtain rfl : b = .curly := by simpa using hp
      obtain ⟨hlabel, hv, hrest⟩ := item_text_drop hs
      obtain ⟨raw, w₁, w₂⟩ := label
      obtain ⟨hkey, -⟩ := append_prefix_drop hlabel
      -- the second name is looked for one level further down
      have hno : ¬g.KeyMatches s (i + w.length) (raw.length + 2) := fun hm => by
        have := ((h.keyMatches_iff hn hkey).mp hm).1
        omega
      simp only [Phrase.entries, Phrase.events, Label.events, List.foldl_append, List.foldl_cons,
        List.foldl_nil, List.findSome?_cons]
      rw [getCb_key h.tok hno, getCb_colon h.tok]
      have hvalue := seek_value hn v hv h
      cases hmember : Located.member ⟨i + w.length + (Label.key raw w₁ w₂).text.length, v⟩ n with
      | none =>
          rw [hmember] at hvalue
          exact ihrest (.inr rfl) hrest hvalue
      | some u =>
          rw [hmember] at hvalue
          exact found_some_stays hvalue _
  | @more b w items ih =>
      obtain rfl : b = .curly := by simpa using hp
      simp only [Phrase.entries, Phrase.events, List.foldl_cons]
      exact ih (.inl rfl) (more_text_drop hs) (h.comma s _ _)

/-! ### What a lookup finds -/

/-- What a path of two names leads to. -/
def Json.Located.sticky (v : Located) (n m : Bytes) : Option Located :=
  (v.members.dropWhile fun e => e.1 ≠ some n).findSome? fun e => e.2.member m

section

variable {s : Bytes} {len i : ℕ} {v : Value}

theorem Denotes.text_drop (h : Denotes s len v i) : v.text <+: s.drop i := by
  obtain ⟨w, t, -, rfl, rfl⟩ := h.text
  rw [List.drop_left]
  exact List.prefix_append _ _

theorem Denotes.in (h : Denotes s len v i) :
    Located.In ⟨i, v⟩ mjsonLexicon mjsonMaxDepth s := ⟨h.wf, h.depth, h.text_drop⟩

theorem Denotes.mjsonFind_eq (h : Denotes s len v i) (names : List Bytes) :
    mjsonFind s len (pathOf names) =
      ((v.events i).foldl (mjsonGetCb s) (.start (pathOf names))).found := by
  have hret : ¬(((i + v.text.length : ℕ) : ℤ) < 0) := by omega
  simp only [mjsonFind, h.mjson_eq, hret, if_false]
  rw [if_neg (by simp [pathOf])]
  rfl

/-- **A path of one name** leads to the first member of that name. -/
theorem Denotes.mjsonFind_member (h : Denotes s len v i) {n : Bytes} (hn : IsName n) :
    mjsonFind s len (pathOf [n]) = .of (Located.member ⟨i, v⟩ n) := by
  rw [h.mjsonFind_eq]
  exact (seek_value hn v h.text_drop (.start [n])).found_eq

/-- **A path of two names** leads to the first value that has a member of the second name, among
those from the first member of the first name on. -/
theorem Denotes.mjsonFind_sticky (h : Denotes s len v i) {n m : Bytes} (hn : IsName n)
    (hm : IsName m) :
    mjsonFind s len (pathOf [n, m]) = .of (Located.sticky ⟨i, v⟩ n m) := by
  rw [h.mjsonFind_eq]
  obtain ⟨b, items, rfl⟩ := h.node
  have hopen := (Seeking.start [n, m]).open s b i 1
  simp only [Phrase.events, List.foldl_cons, List.foldl_append, List.foldl_nil]
  cases b with
  | square =>
      exact (Outcome.close (r := none) (hopen.array items s (i + 1)) s .square _ 1).found_eq
  | curly =>
      simp only [Located.sticky, Located.members]
      rcases seek_member hn items (.inl rfl) (items_text_drop h.text_drop) hopen with
        ⟨hnone, hseek⟩ | hfound
      · have hdrop : (items.entries (i + 1)).dropWhile (fun e => e.1 ≠ some n) = [] := by
          rw [List.dropWhile_eq_nil_iff]
          intro e he
          simpa using hnone e he
        rw [hdrop]
        exact (Outcome.close (r := none) hseek s .curly _ 1).found_eq
      · obtain ⟨pre, u, rest, j, g', hentries, hpre, hu, hrest, hseek, hfold⟩ := hfound
        have hdrop : (items.entries (i + 1)).dropWhile (fun e => e.1 ≠ some n) =
            (some n, u) :: rest.entries j := by
          rw [hentries, List.dropWhile_append_of_pos (by simpa using hpre)]
          simp
        rw [hdrop, hfold, List.findSome?_cons]
        have hvalue := seek_value hm u.value hu hseek
        cases hmember : u.member m with
        | none =>
            rw [hmember] at hvalue
            exact ((seek_second hm rest (.inr rfl) hrest hvalue).close s .curly _ 1).found_eq
        | some x =>
            rw [hmember] at hvalue
            have hstays : Outcome _ [m] 0 (some x) :=
              found_some_stays (s := s) hvalue (rest.events j)
            exact (hstays.close s .curly _ 1).found_eq

/-- Without an object or an array there, there is no member to find. -/
theorem mjsonFind_none (h : ∀ v i, ¬Denotes s len v i) {n : Bytes} (names : List Bytes) :
    mjsonFind s len (pathOf (n :: names)) = .none := by
  simp only [mjsonFind]
  rw [if_neg (by simp [pathOf])]
  by_cases hret : (mjson s len).1 < 0
  · rw [if_pos hret]
  · rw [if_neg hret]
    rcases mjson_sound (not_lt.mp hret) with ⟨e, htok, hevents⟩ | ⟨v, i, hv⟩
    · have hseek := Seeking.start (n :: names)
      rw [hevents, List.foldl_cons, List.foldl_nil,
        getCb_scalar hseek.tok e.tok htok hseek.not_target e.off e.len]
      rfl
    · exact (h v i hv).elim

/-- The object or the array found is itself a text to look things up in. -/
theorem Json.Located.In.denotes {u : Located} {d : ℕ} (h : u.In mjsonLexicon d s)
    (hd : d ≤ mjsonMaxDepth) (hnode : ∃ b items, u.value = .node b items) :
    Denotes (s.drop u.off) u.value.text.length u.value 0 := by
  obtain ⟨t, ht⟩ := h.text
  exact ⟨h.wf, h.depth.trans hd, hnode, ⟨[], t, nofun, rfl, by rw [← ht]; rfl⟩, by omega⟩

end

end OtiKiosk
