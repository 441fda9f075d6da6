import OtiKiosk.Client.Receive
import OtiKiosk.Commands.Fields
import OtiKiosk.Lib.Datum

/-!
Spellings of one completion event. Blanks and the order of members make no
difference, and neither do escapes that `mjson_unescape` knows. It does not know
`\u`, and names and the method are compared as they are spelled: a text with such
an escape in a name or a string that is looked up is read as another event.
-/

namespace OtiKiosk

open Ascii Json

/-! ### Strings -/

theorem mjsonEsc_meaning {c b : UInt8} (h : mjsonEsc c = some b) : c ≠ 117 ∧ escapeByte c = b := by
  have hcases : ∀ p ∈ escapes.zip escaped, p.1 ≠ 117 ∧ escapeByte p.1 = p.2 := by decide +kernel
  exact hcases _ (mem_of_mjsonEsc h)

/-- What `mjson_unescape` reads is what the string means. -/
theorem unescape_of_decode {raw w : Bytes} (h : decode raw = some w) : unescape raw = w := by
  have hunits : stringUnits raw = w.map .byte := by
    refine decode_induction (motive := fun raw w => stringUnits raw = w.map .byte) ?_ ?_ ?_ ?_ h
    · rfl
    · rfl
    · intro c b s w hb ih
      obtain ⟨hc, rfl⟩ := mjsonEsc_meaning hb
      rw [stringUnits_escape hc, ih, List.map_cons]
    · intro c s w hc ih
      rw [stringUnits_plain hc, ih, List.map_cons]
  rw [unescape, hunits, joinUnits_bytes]

/-- Strings that are read, and mean the same, are read alike. -/
theorem decode_eq_of_unescape {raw raw' : Bytes} (h : (decode raw).isSome)
    (h' : (decode raw').isSome) (hsame : unescape raw = unescape raw') :
    decode raw = decode raw' := by
  obtain ⟨w, hw⟩ := Option.isSome_iff_exists.mp h
  obtain ⟨w', hw'⟩ := Option.isSome_iff_exists.mp h'
  rw [unescape_of_decode hw, unescape_of_decode hw'] at hsame
  rw [hw, hw', hsame]

/-- A name without characters that have an escape. -/
def IsWord (name : Bytes) : Prop := ∀ c ∈ name, c ∉ escaped

instance (name : Bytes) : Decidable (IsWord name) :=
  inferInstanceAs (Decidable (∀ c ∈ name, c ∉ escaped))

theorem IsWord.decode_eq {name : Bytes} (h : IsWord name) : decode name = some name := by
  induction name with
  | nil => rfl
  | cons c s ih =>
      have hback : c ≠ backslash := by
        rintro rfl
        exact h _ List.mem_cons_self (by decide)
      rw [decode_plain hback, ih fun d hd => h d (List.mem_cons_of_mem _ hd)]
      rfl

theorem IsWord.unescape_iff {name raw : Bytes} (h : IsWord name) (hraw : (decode raw).isSome) :
    unescape raw = name ↔ raw = name := by
  constructor
  · intro hname
    obtain ⟨w, hw⟩ := Option.isSome_iff_exists.mp hraw
    obtain rfl : w = name := (unescape_of_decode hw).symm.trans hname
    exact decode_eq_self hw h
  · rintro rfl
    exact unescape_of_decode h.decode_eq

/-! ### Paths -/

/-- The names along a path, and the string that it leads to, have no escapes but those that
`mjson_unescape` knows. -/
def Legible : List Bytes → Value → Prop
  | [], v => ∀ raw ∈ v.string?, (decode raw).isSome
  | name :: path, v => ∀ e ∈ v.pairs, e.1.map unescape = some name →
      (e.1.bind decode).isSome ∧ Legible path e.2

theorem mem_pairs_of_get {v w : Value} {name : Bytes} (h : v.get name = some w) :
    (some name, w) ∈ v.pairs := by
  rw [Phrase.get, Option.map_eq_some_iff] at h
  obtain ⟨e, he, rfl⟩ := h
  have hname : e.1 = some name := by simpa using List.find?_some he
  rw [← hname]
  exact List.mem_of_find?_eq_some he

theorem Legible.get {v : Value} {name : Bytes} {path : List Bytes} (h : Legible (name :: path) v)
    (hname : IsWord name) : v.datum.get name = (v.get name).map Phrase.datum := by
  refine Phrase.datum_get_of fun e he => ?_
  obtain ⟨o, w⟩ := e
  cases o with
  | none => exact iff_of_false (Option.some_ne_none name).symm (Option.some_ne_none name).symm
  | some raw =>
      simp only [Option.map_some, Option.some.injEq]
      constructor
      · intro hraw
        have hread := (h _ he (congrArg some hraw)).1
        exact (hname.unescape_iff hread).mp hraw
      · rintro rfl
        exact unescape_of_decode hname.decode_eq

theorem Legible.of_get {v w : Value} {name : Bytes} {path : List Bytes}
    (h : Legible (name :: path) v) (hname : IsWord name) (hw : v.get name = some w) :
    Legible path w :=
  (h _ (mem_pairs_of_get hw) (congrArg some (unescape_of_decode hname.decode_eq))).2

theorem Legible.getAt {v : Value} {path : List Bytes} (h : Legible path v)
    (hpath : ∀ name ∈ path, IsWord name) :
    v.datum.getAt path = (v.getAt path).map Phrase.datum ∧
      ∀ w, v.getAt path = some w → Legible [] w := by
  induction path generalizing v with
  | nil =>
      refine ⟨rfl, fun w hw => ?_⟩
      obtain rfl : v = w := Option.some.inj hw
      exact h
  | cons name path ih =>
      have hname := hpath name List.mem_cons_self
      rw [Datum.getAt, Phrase.getAt, h.get hname]
      cases hv : v.get name with
      | none =>
          refine ⟨rfl, fun w hw => ?_⟩
          cases hw
      | some u => exact ih (h.of_get hname hv) fun n hn => hpath n (List.mem_cons_of_mem _ hn)

/-- Nothing stands in for a member that is missing at a path of two names: its object is missing,
too, or it is not missing, or no other object has a member of that name. -/
def Unshadowed (params : Datum) : List Bytes → Prop
  | [a, m] => params.get a = none ∨ (params.getAt [a, m]).isSome ∨
      ∀ k, k ≠ a → params.getAt [k, m] = none
  | _ => True

theorem get_none_of_datum {v : Value} {name : Bytes} (hname : IsWord name)
    (h : v.datum.get name = none) : v.get name = none := by
  cases hv : v.get name with
  | none => rfl
  | some w =>
      have hmem := mem_pairs_of_get hv
      rw [v.datum_get, Option.map_eq_none_iff, List.find?_eq_none] at h
      refine (h _ hmem ?_).elim
      simp [unescape_of_decode hname.decode_eq]

theorem entries_named {p : Part} (t : Phrase p) (hp : p = .items .curly ∨ p = .rest .curly) (i : ℕ) :
    ∀ e ∈ t.entries i, ∃ raw, e.1 = some raw := by
  induction t generalizing i with
  | @item b w label v rest ihv ihrest =>
      obtain rfl : b = .curly := by simpa using hp
      obtain ⟨raw, w₁, w₂⟩ := label
      intro e he
      rcases List.mem_cons.mp he with rfl | he
      · exact ⟨raw, rfl⟩
      · exact ihrest (.inr rfl) _ e he
  | @more b w items ih =>
      obtain rfl : b = .curly := by simpa using hp
      exact ih (.inl rfl) _
  | _ =>
      intro e he
      cases he

/-- The members of an object have names. -/
theorem pairs_named {v : Value} {e : Option Bytes × Value} (he : e ∈ v.pairs) :
    ∃ raw, e.1 = some raw := by
  rw [Phrase.pairs, List.mem_map] at he
  obtain ⟨e, he, rfl⟩ := he
  cases v with
  | node b items =>
      cases b with
      | curly => exact entries_named items (.inl rfl) _ e he
      | square => cases he
  | _ => cases he

/-- Without a member of its own, a lookup leads nowhere. -/
theorem sticky_none {params : Value} {a m : Bytes} (ha : IsWord a) (hm : IsWord m)
    (hlegible : Legible [a, m] params) (hdistinct : params.Distinct)
    (hown : Unshadowed params.datum [a, m]) (hat : params.getAt [a, m] = none) :
    params.sticky a m = none := by
  rw [Phrase.sticky]
  cases hget : params.get a with
  | none =>
      rw [Phrase.get, Option.map_eq_none_iff, List.find?_eq_none] at hget
      have hdrop : (params.pairs.dropWhile fun e => e.1 ≠ some a) = [] := by
        rw [List.dropWhile_eq_nil_iff]
        intro e he
        simpa using hget e he
      rw [hdrop]
      rfl
  | some v =>
      have hv : params.datum.get a = some v.datum := by
        rw [hlegible.get ha, hget]
        rfl
      have hvm : v.datum.get m = none := by
        rw [Phrase.getAt, hget, Option.bind_some, Phrase.getAt] at hat
        have hnone : v.get m = none := by
          cases hw : v.get m with
          | none => rfl
          | some w =>
              rw [hw] at hat
              cases hat
        rw [(hlegible.of_get ha hget).get hm, hnone]
        rfl
      rw [List.findSome?_eq_none_iff]
      intro e he
      have hmem : e ∈ params.pairs := (List.dropWhile_sublist _).subset he
      obtain ⟨raw, hraw⟩ := pairs_named hmem
      have hentry : params.datum.get (unescape raw) = some e.2.datum := by
        refine Phrase.datum_get_mem hdistinct ?_
        rw [← hraw]
        exact hmem
      refine get_none_of_datum hm ?_
      by_cases hk : unescape raw = a
      · rw [hk, hv] at hentry
        rw [← Option.some.inj hentry]
        exact hvm
      · -- another object
        rcases hown with hnone | hsome | hother
        · rw [hv] at hnone
          cases hnone
        · rw [Datum.getAt, hv, Option.bind_some, Datum.getAt, hvm] at hsome
          cases hsome
        · have hno := hother _ hk
          rw [Datum.getAt, hentry, Option.bind_some, Datum.getAt] at hno
          cases hem : e.2.datum.get m with
          | none => rfl
          | some x =>
              rw [hem] at hno
              cases hno

/-- A lookup leads to its own member, or to nothing. -/
theorem lookup_eq_getAt {params : Value} {path : List Bytes} (hpath : IsShallow path)
    (hword : ∀ name ∈ path, IsWord name) (hlegible : Legible path params)
    (hdistinct : params.Distinct) (hown : Unshadowed params.datum path) :
    params.lookup path = params.getAt path := by
  cases hat : params.getAt path with
  | some w => exact lookup_of_getAt hpath hat
  | none =>
      cases hpath with
      | @one n hn =>
          show params.get n = none
          rw [Phrase.getAt] at hat
          cases hget : params.get n with
          | none => rfl
          | some w =>
              rw [hget] at hat
              cases hat
      | @two a m ha hm =>
          exact sticky_none (hword a (by simp)) (hword m (by simp)) hlegible hdistinct hown hat

/-! ### Values that are read alike -/

/-- Two lookups lead to values that mean the same, and are legible, or both lead nowhere. -/
structure Alike (v v' : Option Value) : Prop where
  datum : v.map Phrase.datum = v'.map Phrase.datum
  left : ∀ w, v = some w → Legible [] w
  right : ∀ w, v' = some w → Legible [] w

theorem number?_eq (v : Value) : v.number? = v.datum.number?.map fun raw => (strtod raw).1 := by
  cases v with
  | node b items => cases b <;> rfl
  | _ => rfl

theorem bool?_eq (v : Value) : v.bool? = v.datum.bool? := by
  cases v with
  | node b items => cases b <;> rfl
  | _ => rfl

theorem string?_eq (v : Value) : v.string?.map unescape = v.datum.string? := by
  cases v with
  | node b items => cases b <;> rfl
  | _ => rfl

section

variable {v v' : Option Value}

/-- What depends on the meaning only is read alike. -/
theorem Alike.bind (h : Alike v v') {α : Type} (read : Value → Option α) (mean : Datum → Option α)
    (hread : ∀ w, read w = mean w.datum) : v.bind read = v'.bind read := by
  have hmean : ∀ u : Option Value, u.bind read = (u.map Phrase.datum).bind mean := by
    intro u
    rw [Option.bind_map]
    exact congrArg u.bind (funext hread)
  rw [hmean, hmean, h.datum]

theorem Alike.number (h : Alike v v') : v.bind Phrase.number? = v'.bind Phrase.number? :=
  h.bind _ (fun d => d.number?.map fun raw => (strtod raw).1) number?_eq

theorem Alike.bool (h : Alike v v') : v.bind Phrase.bool? = v'.bind Phrase.bool? :=
  h.bind _ _ bool?_eq

theorem Alike.string (h : Alike v v') :
    (v.bind Phrase.string?).map decode = (v'.bind Phrase.string?).map decode := by
  have hmean := h.bind (fun w => w.string?.map unescape) _ string?_eq
  have hlegible : ∀ (u : Option Value), (∀ w, u = some w → Legible [] w) →
      ∀ raw, u.bind Phrase.string? = some raw → (decode raw).isSome := by
    intro u hu raw hraw
    obtain ⟨w, hw, hstring⟩ := Option.bind_eq_some_iff.mp hraw
    exact hu w hw raw hstring
  have hmap : ∀ u : Option Value,
      (u.bind fun w => w.string?.map unescape) = (u.bind Phrase.string?).map unescape := by
    intro u
    rw [Option.map_bind]
    rfl
  rw [hmap, hmap] at hmean
  cases hraw : v.bind Phrase.string? with
  | none =>
      rw [hraw] at hmean
      cases hraw' : v'.bind Phrase.string? with
      | none => rfl
      | some raw' =>
          rw [hraw'] at hmean
          cases hmean
  | some raw =>
      rw [hraw] at hmean
      cases hraw' : v'.bind Phrase.string? with
      | none =>
          rw [hraw'] at hmean
          cases hmean
      | some raw' =>
          rw [hraw'] at hmean
          exact congrArg some (decode_eq_of_unescape (hlegible v h.left raw hraw)
            (hlegible v' h.right raw' hraw') (Option.some.inj hmean))

end

/-! ### Fields -/

section

variable {S : Type}

theorem fillField_alike {out : JsonOut S} {v v' : Option Value} (h : Alike v v') {s s' : S}
    (hfill : fillField out v s = (s', true)) : fillField out v' s = (s', true) := by
  cases out with
  | string n get set =>
      have hstring := h.string
      simp only [fillField] at hfill ⊢
      cases hraw : v.bind Phrase.string? with
      | none =>
          rw [hraw, Option.map_none] at hstring
          rw [Option.map_eq_none_iff.mp hstring.symm]
          rw [hraw] at hfill
          exact hfill
      | some raw =>
          rw [hraw, Option.map_some] at hstring
          obtain ⟨raw', hraw', hdecode⟩ := Option.map_eq_some_iff.mp hstring.symm
          rw [hraw] at hfill
          simp only at hfill
          rw [hraw']
          cases hread : mjsonUnescape raw (n - 1) with
          | mk written ret =>
              rw [hread] at hfill
              cases ret with
              | none => cases hfill
              | some l =>
                  obtain ⟨w, rfl, rfl, hw, hlen⟩ := mjsonUnescape_some hread
                  have hread' := (mjsonUnescape_eq_iff raw' w (n - 1)).mpr ⟨hdecode.trans hw, hlen⟩
                  simp only [hread']
                  exact hfill
  | bool set =>
      simp only [fillField] at hfill ⊢
      rw [← h.bool]
      exact hfill
  | int set =>
      simp only [fillField] at hfill ⊢
      rw [← h.number]
      exact hfill
  | double set =>
      simp only [fillField] at hfill ⊢
      rw [← h.number]
      exact hfill

theorem fillFields_alike {fields : List (JsonField S)} {value value' : JsonField S → Option Value}
    (h : ∀ f ∈ fields, Alike (value f) (value' f)) {s s' : S}
    (hfill : fillFields (fields.map fun f => (f.out, value f)) s = (s', true)) :
    fillFields (fields.map fun f => (f.out, value' f)) s = (s', true) := by
  induction fields generalizing s with
  | nil => exact hfill
  | cons field fields ih =>
      rw [List.map_cons] at hfill ⊢
      obtain ⟨s₁, hfield, hrest⟩ := fillFields_cons hfill
      rw [fillFields, fillField_alike (h field List.mem_cons_self) hfield]
      exact ih (fun f hf => h f (List.mem_cons_of_mem _ hf)) hrest

end

/-! ### Messages -/

/-- The paths that `parse_transaction_complete` looks up, of a message. -/
def completionPaths : List (List Bytes) :=
  [[ascii "id"], [ascii "method"]] ++
    completionFields.map fun f => ascii "params" :: pathNames f.jsonPath

theorem completionPaths_words : ∀ path ∈ completionPaths, ∀ name ∈ path, IsWord name := by
  decide +kernel

structure MessageText (msg : Bytes) (t : Value) : Prop where
  wf : t.WF strict
  text : ∃ w w', IsBlank w ∧ IsBlank w' ∧ msg = w ++ (t.text ++ w')
  object : ∃ items, t = .node .curly items
  length : msg.length ≤ workBufferSize
  depth : t.depth ≤ mjsonMaxDepth
  distinct : t.Distinct

theorem MessageText.denotes {msg : Bytes} {t : Value} (h : MessageText msg t) :
    ∃ i, Denotes msg msg.length t i := by
  obtain ⟨w, w', hw, -, rfl⟩ := h.text
  obtain ⟨items, hitems⟩ := h.object
  refine ⟨w.length, h.wf.mono strict_le, h.depth, ⟨.curly, items, hitems⟩,
    ⟨w, w', hw, rfl, rfl⟩, ?_⟩
  rw [List.length_append, List.length_append]
  omega

theorem entries_distinct {p : Part} {t : Phrase p} (h : t.Distinct) (i : ℕ) :
    ∀ e ∈ t.entries i, e.2.value.Distinct := by
  induction t generalizing i with
  | @item b w label v rest ihv ihrest =>
      intro e he
      rcases List.mem_cons.mp he with rfl | he
      · exact h.1
      · exact ihrest h.2 _ e he
  | more w items ih => exact ih h _
  | _ =>
      intro e he
      cases he

theorem distinct_of_get {v w : Value} {name : Bytes} (h : v.Distinct) (hw : v.get name = some w) :
    w.Distinct := by
  have hmem := mem_pairs_of_get hw
  rw [Phrase.pairs, List.mem_map] at hmem
  obtain ⟨e, he, heq⟩ := hmem
  obtain ⟨-, rfl⟩ := Prod.mk.inj heq
  cases v with
  | node b items =>
      cases b with
      | curly => exact entries_distinct h.2 _ e he
      | square => cases he
  | _ => cases he

structure SameEvent (t t' : Value) : Prop where
  datum : t.datum = t'.datum
  distinct : t.Distinct
  distinct' : t'.Distinct
  legible : ∀ path ∈ completionPaths, Legible path t
  legible' : ∀ path ∈ completionPaths, Legible path t'
  own : ∀ params, t.datum.get (ascii "params") = some params → ∀ f ∈ completionFields,
    Unshadowed params (pathNames f.jsonPath)

theorem SameEvent.symm {t t' : Value} (h : SameEvent t t') : SameEvent t' t :=
  ⟨h.datum.symm, h.distinct', h.distinct, h.legible', h.legible, h.datum ▸ h.own⟩

/-- A lookup of one name leads to values that are read alike. -/
theorem SameEvent.get {t t' : Value} (h : SameEvent t t') {name : Bytes}
    (hpath : [name] ∈ completionPaths) : Alike (t.get name) (t'.get name) := by
  have hname := completionPaths_words _ hpath name (by simp)
  have hlegible := h.legible _ hpath
  have hlegible' := h.legible' _ hpath
  refine ⟨?_, fun w hw => hlegible.of_get hname hw, fun w hw => hlegible'.of_get hname hw⟩
  rw [← hlegible.get hname, ← hlegible'.get hname, h.datum]

theorem mem_completionPaths {field : JsonField CompletionOut} (hfield : field ∈ completionFields) :
    ascii "params" :: pathNames field.jsonPath ∈ completionPaths :=
  List.mem_append_right _ (List.mem_map_of_mem hfield)

/-- The parameters of both mean the same. -/
theorem SameEvent.params {t t' params : Value} (h : SameEvent t t')
    (hparams : t.get (ascii "params") = some params) :
    ∃ params', t'.get (ascii "params") = some params' ∧ params'.datum = params.datum := by
  have hfield : completionFields[0] ∈ completionFields := List.getElem_mem _
  have hpath := mem_completionPaths hfield
  have hword : IsWord (ascii "params") := completionPaths_words _ hpath _ List.mem_cons_self
  have hget := (h.legible _ hpath).get hword
  rw [h.datum, (h.legible' _ hpath).get hword, hparams] at hget
  exact Option.map_eq_some_iff.mp hget

theorem SameEvent.field {t t' params params' : Value} (h : SameEvent t t')
    (hparams : t.get (ascii "params") = some params)
    (hparams' : t'.get (ascii "params") = some params') (hsame : params'.datum = params.datum)
    {field : JsonField CompletionOut} (hfield : field ∈ completionFields) :
    Alike (fieldValue params field) (fieldValue params' field) := by
  have hpath := mem_completionPaths hfield
  have hwords := completionPaths_words _ hpath
  have hword := hwords _ List.mem_cons_self
  have hnames : ∀ name ∈ pathNames field.jsonPath, IsWord name :=
    fun name hname => hwords name (List.mem_cons_of_mem _ hname)
  have hshallow := (completionFields_names hfield).2
  have hlegible := (h.legible _ hpath).of_get hword hparams
  have hlegible' := (h.legible' _ hpath).of_get hword hparams'
  -- both lookups lead where the path of names leads
  have hown : Unshadowed params.datum (pathNames field.jsonPath) := by
    refine h.own params.datum ?_ field hfield
    rw [(h.legible _ hpath).get hword, hparams]
    rfl
  have hlookup := lookup_eq_getAt hshallow hnames hlegible (distinct_of_get h.distinct hparams) hown
  have hlookup' := lookup_eq_getAt hshallow hnames hlegible'
    (distinct_of_get h.distinct' hparams') (hsame ▸ hown)
  obtain ⟨hat, hread⟩ := hlegible.getAt hnames
  obtain ⟨hat', hread'⟩ := hlegible'.getAt hnames
  rw [fieldValue, fieldValue, hlookup, hlookup']
  exact ⟨by rw [← hat, ← hat', hsame], hread, hread'⟩

theorem object_of_datum {params params' : Value} (hobject : ∃ items, params = .node .curly items)
    (hsame : params'.datum = params.datum) : ∃ items, params' = .node .curly items := by
  obtain ⟨items, rfl⟩ := hobject
  cases params' with
  | node b items' =>
      cases b with
      | curly => exact ⟨items', rfl⟩
      | square => cases hsame
  | _ => cases hsame

/-- What is accepted in one spelling is accepted in the other, and as the same. -/
theorem SameEvent.accepted {t t' : Value} (h : SameEvent t t') (strStatus : CharArray 32)
    (pmtResp : PaymentResponse) {event : ℤ × PaymentResponse}
    (haccepted : (readCompletion t strStatus pmtResp).accepted = some event) :
    (readCompletion t' strStatus pmtResp).accepted = some event := by
  have hret : (readCompletion t strStatus pmtResp).ret = .ok := by
    by_contra hno
    rw [CompletionResult.accepted, if_neg hno] at haccepted
    cases haccepted
  obtain ⟨id, params, hacceptable⟩ := acceptable_of_readCompletion hret
  obtain ⟨out, hfill, hread⟩ := readCompletion_of_acceptable hacceptable strStatus pmtResp
  obtain ⟨params', hparams', hsame⟩ := h.params hacceptable.member
  have hfields : ∀ f ∈ completionFields, Alike (fieldValue params f) (fieldValue params' f) :=
    fun f hf => h.field hacceptable.member hparams' hsame hf
  have hfill' : fillFields (completionSources params') ⟨strStatus, .zero⟩ = (out, true) :=
    fillFields_alike hfields hfill
  have hacceptable' : Acceptable t' id params' := by
    refine ⟨?_, ?_, hparams', object_of_datum hacceptable.object hsame, ?_⟩
    · rw [← (h.get (by decide +kernel : [ascii "id"] ∈ completionPaths)).number]
      exact hacceptable.id
    · -- the method has no character that has an escape
      have hstring := (h.get (by decide +kernel : [ascii "method"] ∈ completionPaths)).string
      have hword : IsWord (ascii "TransactionComplete") := by decide
      rw [hacceptable.method, Option.map_some] at hstring
      obtain ⟨raw, hraw, hdecode⟩ := Option.map_eq_some_iff.mp hstring.symm
      rw [hword.decode_eq] at hdecode
      rw [hraw, decode_eq_self hdecode hword]
    · have hall : (fillFields (completionSources params') ⟨strStatus, .zero⟩).2 = true := by
        rw [hfill']
      rw [fillFields_iff, completionSources, List.forall_mem_map] at hall
      exact hall
  -- the same fields are filled with the same contents
  obtain ⟨out', hfill'', hread'⟩ := readCompletion_of_acceptable hacceptable' strStatus pmtResp
  obtain rfl : out = out' := congrArg Prod.fst (hfill'.symm.trans hfill'')
  rw [hread', ← hread]
  exact haccepted

/-- **Spellings.** Two texts of one event are accepted or rejected alike, whatever their blanks, the
order of their members and the escapes in them that `mjson_unescape` knows. -/
theorem spelling_independent {msg msg' : Bytes} {t t' : Value} (h : MessageText msg t)
    (h' : MessageText msg' t') (hsame : t.datum = t'.datum)
    (hlegible : ∀ path ∈ completionPaths, Legible path t ∧ Legible path t')
    (hown : ∀ params, t.datum.get (ascii "params") = some params → ∀ f ∈ completionFields,
      Unshadowed params (pathNames f.jsonPath)) :
    acceptedCompletion msg = acceptedCompletion msg' ∧
      ∀ registered stale stale',
        kioskMsgReceived registered stale (-1) (workBuffer msg) msg.length =
          kioskMsgReceived registered stale' (-1) (workBuffer msg') msg'.length := by
  have hevent : SameEvent t t' :=
    ⟨hsame, h.distinct, h'.distinct, fun path hpath => (hlegible path hpath).1,
      fun path hpath => (hlegible path hpath).2, hown⟩
  obtain ⟨i, ht⟩ := h.denotes
  obtain ⟨i', ht'⟩ := h'.denotes
  have haccepted : acceptedCompletion msg = acceptedCompletion msg' := by
    rw [acceptedCompletion, acceptedCompletion, ht.parseTransactionComplete_eq,
      ht'.parseTransactionComplete_eq]
    refine Option.ext fun event => ?_
    exact ⟨hevent.accepted _ _, hevent.symm.accepted _ _⟩
  refine ⟨haccepted, fun registered stale stale' => ?_⟩
  have hhandle : ∀ {msg : Bytes} (stale : Stale),
      kioskMsgReceived registered stale (-1) (workBuffer msg) msg.length =
        eventEffects registered (acceptedCompletion msg) :=
    fun stale => kioskMsgReceived_eq (List.prefix_append _ _) registered stale (-1)
  rw [hhandle stale, hhandle stale', haccepted]

/-! ### Two spellings -/

instance decidableLegible : (path : List Bytes) → (v : Value) → Decidable (Legible path v)
  | [], _ => inferInstanceAs (Decidable (∀ raw ∈ _, _))
  | _ :: path, v =>
      have := decidableLegible path
      inferInstanceAs (Decidable (∀ e ∈ v.pairs, _))

theorem unshadowed_of_getAt {params : Datum} {path : List Bytes}
    (h : (params.getAt path).isSome) : Unshadowed params path := by
  match path with
  | [] => trivial
  | [_] => trivial
  | [_, _] => exact .inr (.inl h)
  | _ :: _ :: _ :: _ => trivial

theorem strict_number {ds : Bytes} (h : ds = [48] ∨ IsDigits ds ∧ ds.head? ≠ some 48) :
    strict.number ds :=
  ⟨⟨[], ds, [], [], .inl rfl, h, .inl rfl, .inl rfl⟩, by simp [Numeral.text]⟩

theorem panParams_wf {pan : Bytes} (h : IsChars pan) : (panParams pan).WF strict := by
  have hname : ∀ name, IsPlain name → strict.string name := fun _ hplain => hplain.chars
  have hzero : strict.number (ascii "0") := strict_number (.inl (by decide))
  have hamount : strict.number (ascii "450") :=
    strict_number (.inr ⟨⟨by decide, by decide⟩, by decide⟩)
  refine object_wf ?_
  simp only [List.forall_mem_cons]
  refine ⟨⟨hname _ (by decide), hname _ (by decide)⟩, ⟨hname _ (by decide), .nil⟩,
    ⟨hname _ (by decide), hzero⟩, ⟨hname _ (by decide), object_wf ?_⟩,
    fun m hm => absurd hm List.not_mem_nil⟩
  simp only [List.forall_mem_cons]
  exact ⟨⟨hname _ (by decide), hamount⟩, ⟨hname _ (by decide), hamount⟩,
    ⟨hname _ (by decide), hname _ (by decide)⟩, ⟨hname _ (by decide), h⟩,
    ⟨hname _ (by decide), .nil⟩, ⟨hname _ (by decide), .nil⟩, ⟨hname _ (by decide), .nil⟩,
    fun m hm => absurd hm List.not_mem_nil⟩

theorem eventWithPan_wf {pan : Bytes} (h : IsChars pan) : (eventWithPan pan).WF strict := by
  have hname : ∀ name, IsPlain name → strict.string name := fun _ hplain => hplain.chars
  refine object_wf ?_
  simp only [List.forall_mem_cons]
  exact ⟨⟨hname _ (by decide), hname _ (by decide)⟩,
    ⟨hname _ (by decide), strict_number (.inr ⟨⟨by decide, by decide⟩, by decide⟩)⟩,
    ⟨hname _ (by decide), panParams_wf h⟩, fun m hm => absurd hm List.not_mem_nil⟩

def idFirst (pan : Bytes) : Value :=
  object [(ascii "id", .number (ascii "77")), (ascii "method", .string (ascii "TransactionComplete")),
    (ascii "params", panParams pan)]

theorem idFirst_wf {pan : Bytes} (h : IsChars pan) : (idFirst pan).WF strict := by
  have hname : ∀ name, IsPlain name → strict.string name := fun _ hplain => hplain.chars
  refine object_wf ?_
  simp only [List.forall_mem_cons]
  exact ⟨⟨hname _ (by decide), strict_number (.inr ⟨⟨by decide, by decide⟩, by decide⟩)⟩,
    ⟨hname _ (by decide), hname _ (by decide)⟩, ⟨hname _ (by decide), panParams_wf h⟩,
    fun m hm => absurd hm List.not_mem_nil⟩

theorem panParams_datum {pan pan' : Bytes} (h : unescape pan = unescape pan') :
    (panParams pan).datum = (panParams pan').datum := by
  simp only [panParams, object, restOf, Phrase.datum, Phrase.meaning, h]

theorem eventWithPan_datum {pan pan' : Bytes} (h : unescape pan = unescape pan') :
    (eventWithPan pan).datum = (eventWithPan pan').datum := by
  have hparams := panParams_datum h
  simp only [Phrase.datum] at hparams
  simp only [eventWithPan, object, restOf, Phrase.datum, Phrase.meaning, hparams]

theorem idFirst_datum (pan : Bytes) : (idFirst pan).datum = (eventWithPan pan).datum := by
  have hne : (Label.key (ascii "id") [] []).name ≠ (Label.key (ascii "method") [] []).name := by
    decide +kernel
  exact Datum.between_swap hne _

def slashedPan : Bytes := ascii "411111\\/1111"

def plainPan : Bytes := ascii "411111/1111"

theorem slashedPan_chars : IsChars slashedPan := by
  have hplain : ∀ {c : UInt8} {s : Bytes}, 32 ≤ c → c ≠ quote → c ≠ backslash → IsChars s →
      IsChars (c :: s) := fun hc hq hb hs => IsChars.cons (.plain hc hq hb) hs
  have hrest : IsChars (backslash :: slash :: ascii "1111") :=
    IsChars.cons (.escape (by decide)) (IsPlain.chars (by decide))
  iterate 6 refine hplain (by decide) (by decide) (by decide) ?_
  exact hrest

theorem idFirst_spelling_independent :
    acceptedCompletion (eventWithPan plainPan).text =
        acceptedCompletion (space :: (idFirst slashedPan).text) ∧
      ∀ registered stale stale',
        kioskMsgReceived registered stale (-1) (workBuffer (eventWithPan plainPan).text)
            (eventWithPan plainPan).text.length =
          kioskMsgReceived registered stale' (-1) (workBuffer (space :: (idFirst slashedPan).text))
            (space :: (idFirst slashedPan).text).length := by
  have hplain : IsChars plainPan := IsPlain.chars (by decide)
  have hsame : unescape plainPan = unescape slashedPan := by decide +kernel
  have htext : MessageText (eventWithPan plainPan).text (eventWithPan plainPan) :=
    ⟨eventWithPan_wf hplain, ⟨[], [], isBlank_nil, isBlank_nil, by simp⟩, ⟨_, rfl⟩, by decide +kernel,
      by decide +kernel, by decide +kernel⟩
  have htext' : MessageText (space :: (idFirst slashedPan).text) (idFirst slashedPan) :=
    ⟨idFirst_wf slashedPan_chars, ⟨[space], [], by decide, isBlank_nil, by simp⟩, ⟨_, rfl⟩,
      by decide +kernel, by decide +kernel, by decide +kernel⟩
  refine spelling_independent htext htext' ?_ ?_ ?_
  · rw [idFirst_datum, eventWithPan_datum hsame]
  · decide +kernel
  · have hmember : (eventWithPan plainPan).get (ascii "params") = some (panParams plainPan) := rfl
    have hlegible : Legible [ascii "params"] (eventWithPan plainPan) := by decide +kernel
    intro params hparams f hf
    rw [hlegible.get (by decide), hmember, Option.map_some, Option.some.injEq] at hparams
    subst hparams
    have hall : ∀ f ∈ completionFields,
        ((panParams plainPan).datum.getAt (pathNames f.jsonPath)).isSome = true := by decide +kernel
    exact unshadowed_of_getAt (hall f hf)

def unicodePan : Bytes := ascii "\\u0034111"

theorem unicodePan_chars : IsChars unicodePan :=
  IsChars.cons (.unicode (by decide) (by decide) (by decide) (by decide)) (IsPlain.chars (by decide))

/-- Where the digit is spelled in hexadecimal digits, the event is rejected. -/
theorem unicodePan_rejected :
    MessageText (eventWithPan (ascii "4111")).text (eventWithPan (ascii "4111")) ∧
      MessageText (eventWithPan unicodePan).text (eventWithPan unicodePan) ∧
      (eventWithPan (ascii "4111")).datum = (eventWithPan unicodePan).datum ∧
      (eventWithPan (ascii "4111")).datum.get (ascii "method") =
        some (.string (ascii "TransactionComplete")) ∧
      (acceptedCompletion (eventWithPan (ascii "4111")).text).isSome ∧
      acceptedCompletion (eventWithPan unicodePan).text = none ∧
      kioskMsgReceived true ⟨.zero 32, .zero⟩ (-1) (workBuffer (eventWithPan (ascii "4111")).text)
          (eventWithPan (ascii "4111")).text.length ≠
        kioskMsgReceived true ⟨.zero 32, .zero⟩ (-1) (workBuffer (eventWithPan unicodePan).text)
          (eventWithPan unicodePan).text.length := by
  have hplain : IsChars (ascii "4111") := IsPlain.chars (by decide)
  have hsame : unescape (ascii "4111") = unescape unicodePan := by decide +kernel
  have htext : MessageText (eventWithPan (ascii "4111")).text (eventWithPan (ascii "4111")) :=
    ⟨eventWithPan_wf hplain, ⟨[], [], isBlank_nil, isBlank_nil, by simp⟩, ⟨_, rfl⟩, by decide +kernel,
      by decide +kernel, by decide +kernel⟩
  have htext' : MessageText (eventWithPan unicodePan).text (eventWithPan unicodePan) :=
    ⟨eventWithPan_wf unicodePan_chars, ⟨[], [], isBlank_nil, isBlank_nil, by simp⟩, ⟨_, rfl⟩,
      by decide +kernel, by decide +kernel, by decide +kernel⟩
  have hmethod : (eventWithPan (ascii "4111")).datum.get (ascii "method") =
      some (.string (ascii "TransactionComplete")) := by
    have hmember : (eventWithPan (ascii "4111")).get (ascii "method") =
        some (.string (ascii "TransactionComplete")) := rfl
    have hlegible : Legible [ascii "method"] (eventWithPan (ascii "4111")) := by decide +kernel
    rw [hlegible.get (by decide), hmember]
    exact congrArg (fun w => some (Datum.string w))
      (unescape_of_decode (IsWord.decode_eq (by decide)))
  refine ⟨htext, htext', eventWithPan_datum hsame, hmethod, ?_, ?_, ?_⟩
  · decide +kernel
  · decide +kernel
  · decide +kernel

end OtiKiosk
