import OtiKiosk.Commands.Reading

/-!
What a completion event must hold to be accepted, and how much. The table of
`parse_transaction_complete` gives each field a type and a size; a string that is
missing is read as the empty one, and one that just fits is refused.
-/

namespace OtiKiosk

open Ascii Json

variable {S : Type}

/-! ### Members -/

def ownValue (params : Value) (field : JsonField S) : Option Value :=
  params.getAt (pathNames field.jsonPath)

def JsonOut.Typed : JsonOut S → Option Value → Prop
  | .string _ _ _, v => (v.bind Phrase.string?).isSome
  | .bool _, v => (v.bind Phrase.bool?).isSome
  | .int _, v => ∃ d ∈ v.bind Phrase.number?, d.IsInt
  | .double _, v => (v.bind Phrase.number?).isSome

instance (v : Option Value) : (out : JsonOut S) → Decidable (out.Typed v)
  | .string _ _ _ => inferInstanceAs (Decidable (_ = true))
  | .bool _ => inferInstanceAs (Decidable (_ = true))
  | .int _ => inferInstanceAs (Decidable (∃ d ∈ v.bind Phrase.number?, d.IsInt))
  | .double _ => inferInstanceAs (Decidable (_ = true))

/-- A lookup leads to the member at its path, if there is one. -/
theorem lookup_of_getAt {names : List Bytes} (hnames : IsShallow names) {v w : Value}
    (h : v.getAt names = some w) : v.lookup names = some w := by
  cases hnames with
  | one hn =>
      rw [Phrase.getAt, Option.bind_eq_some_iff] at h
      obtain ⟨u, hu, huw⟩ := h
      obtain rfl : u = w := Option.some.inj huw
      exact hu
  | @two a m ha hm =>
      rw [Phrase.getAt, Option.bind_eq_some_iff] at h
      obtain ⟨u, hu, hmember⟩ := h
      rw [Phrase.getAt, Option.bind_eq_some_iff] at hmember
      obtain ⟨x, hx, hxw⟩ := hmember
      obtain rfl : x = w := Option.some.inj hxw
      rw [Phrase.get, find?_eq_head?_dropWhile] at hu
      simp only [← decide_not] at hu
      show (v.pairs.dropWhile fun e => e.1 ≠ some a).findSome? (fun e => e.2.get m) = some x
      cases hdrop : v.pairs.dropWhile fun e => e.1 ≠ some a with
      | nil =>
          rw [hdrop] at hu
          cases hu
      | cons e es =>
          rw [hdrop] at hu
          obtain rfl : e.2 = u := Option.some.inj hu
          rw [List.findSome?_cons, hx]

theorem fieldValue_of_own {params v : Value} {field : JsonField S}
    (hnames : IsShallow (pathNames field.jsonPath)) (h : ownValue params field = some v) :
    fieldValue params field = some v := lookup_of_getAt hnames h

/-- The string at a path, decoded. -/
def memberText (params : Value) (path : Bytes) : Option Bytes :=
  ((params.getAt (pathNames path)).bind Phrase.string?).bind decode

def JsonOut.HasRoom (k : ℕ) : JsonOut S → Option Bytes → Prop
  | .string n _ _, text => ∃ w ∈ text, w.length + k ≤ n
  | .bool _, _ => True
  | .int _, _ => True
  | .double _, _ => True

instance (k : ℕ) (text : Option Bytes) : (out : JsonOut S) → Decidable (out.HasRoom k text)
  | .string n _ _ => inferInstanceAs (Decidable (∃ w ∈ text, w.length + k ≤ n))
  | .bool _ => inferInstanceAs (Decidable True)
  | .int _ => inferInstanceAs (Decidable True)
  | .double _ => inferInstanceAs (Decidable True)

/-- The loop takes a member of the right type if its text, a terminator and one byte more fit. -/
theorem accepts_own_iff {params : Value} {field : JsonField S}
    (hnames : IsShallow (pathNames field.jsonPath))
    (htyped : field.out.Typed (ownValue params field)) :
    field.out.Accepts (fieldValue params field) ↔
      field.out.HasRoom 2 (memberText params field.jsonPath) := by
  cases hown : ownValue params field with
  | none =>
      rw [hown] at htyped
      cases hout : field.out <;> simp [hout, JsonOut.Typed] at htyped
  | some v =>
      rw [hown] at htyped
      rw [fieldValue_of_own hnames hown, memberText, ← ownValue, hown]
      cases hout : field.out with
      | string n get set =>
          rw [hout] at htyped
          obtain ⟨raw, hraw⟩ := Option.isSome_iff_exists.mp htyped
          simp only [JsonOut.Accepts, JsonOut.HasRoom, hraw, Option.some.injEq, forall_eq',
            Option.bind_some, Option.mem_def]
          have hroom : ∀ w : Bytes, w.length < n - 1 ↔ w.length + 2 ≤ n := by omega
          simp only [hroom]
      | bool set =>
          rw [hout] at htyped
          exact iff_of_true (Option.isSome_iff_exists.mp htyped) trivial
      | int set =>
          rw [hout] at htyped
          exact iff_of_true htyped trivial
      | double set =>
          rw [hout] at htyped
          exact iff_of_true (Option.isSome_iff_exists.mp htyped) trivial

/-! ### What the arrays hold -/

def fieldText (v : Option Value) : Bytes := ((v.bind Phrase.string?).bind decode).getD []

theorem fillField_string {n : ℕ} (hn : 0 < n) (get : S → CharArray n)
    (set : S → CharArray n → S) {v : Option Value}
    (hnul : ∀ raw, v.bind Phrase.string? = some raw → nul ∉ raw) {s s' : S}
    (h : fillField (.string n get set) v s = (s', true)) :
    ∃ a, s' = set s a ∧ a.str = fieldText v := by
  simp only [fillField] at h
  cases hraw : v.bind Phrase.string? with
  | none =>
      simp only [hraw, Prod.mk.injEq, and_true] at h
      refine ⟨_, h.symm, ?_⟩
      have hstr := CharArray.str_terminate (get s) (w := []) (l := 0) le_rfl hn
      rw [CharArray.write_nil] at hstr
      rw [hstr, fieldText, hraw]
      rfl
  | some raw =>
      simp only [hraw] at h
      cases hread : mjsonUnescape raw (n - 1) with
      | mk written ret =>
          rw [hread] at h
          cases ret with
          | none => cases h
          | some l =>
              obtain ⟨w, rfl, rfl, hdecode, hlen⟩ := mjsonUnescape_some hread
              simp only [Prod.mk.injEq, and_true] at h
              refine ⟨_, h.symm, ?_⟩
              have hlt : w.length < n := by omega
              rw [CharArray.str_terminate _ (by simp) hlt, List.take_left, fieldText, hraw,
                Option.bind_some, hdecode, Option.getD_some]
              have hw := decode_noNul hdecode (hnul raw hraw)
              rw [cString, List.takeWhile_eq_self_iff]
              intro c hc
              have hne : c ≠ nul := by
                rintro rfl
                exact hw hc
              simpa using hne

theorem fillField_int (set : S → ℤ → S) {v : Option Value} {s s' : S}
    (h : fillField (.int set) v s = (s', true)) : ∃ x, s' = set s x := by
  simp only [fillField] at h
  cases hv : v.bind Phrase.number? with
  | none => simp [hv] at h
  | some d =>
      by_cases hint : d.IsInt
      · simp only [hv, hint, if_true, Prod.mk.injEq, and_true] at h
        exact ⟨_, h.symm⟩
      · simp [hv, hint] at h

theorem fillField_double (set : S → Double → S) {v : Option Value} {s s' : S}
    (h : fillField (.double set) v s = (s', true)) : ∃ x, s' = set s x := by
  simp only [fillField] at h
  cases hv : v.bind Phrase.number? with
  | none => simp [hv] at h
  | some d =>
      simp only [hv, Prod.mk.injEq, and_true] at h
      exact ⟨_, h.symm⟩

theorem fillFields_cons {out : JsonOut S} {v : Option Value}
    {fields : List (JsonOut S × Option Value)} {s s' : S}
    (h : fillFields ((out, v) :: fields) s = (s', true)) :
    ∃ s₁, fillField out v s = (s₁, true) ∧ fillFields fields s₁ = (s', true) := by
  rw [fillFields] at h
  cases hfield : fillField out v s with
  | mk s₁ ok =>
      cases ok with
      | false =>
          rw [hfield] at h
          cases h
      | true =>
          rw [hfield] at h
          exact ⟨s₁, rfl, h⟩

def pathText (params : Value) (path : Bytes) : Bytes := fieldText (params.lookup (pathNames path))

structure Filled (params : Value) (out : CompletionOut) : Prop where
  strStatus : out.strStatus.str = pathText params (ascii "$.status")
  errorMessage : out.pmtResp.errorMessage.str = pathText params (ascii "$.errorDescription")
  transactionReference : out.pmtResp.transactionReference.str =
    pathText params (ascii "$.authorizationDetails.Transaction_Referance")
  partialPan : out.pmtResp.partialPan.str =
    pathText params (ascii "$.authorizationDetails.PartialPan")
  cardType : out.pmtResp.cardType.str = pathText params (ascii "$.authorizationDetails.CardType")
  cardId : out.pmtResp.cardId.str = pathText params (ascii "$.authorizationDetails.Card_ID")
  cardToken : out.pmtResp.cardToken.str =
    pathText params (ascii "$.authorizationDetails.CardToken")

theorem Json.Located.lookup_in {L : Lexicon} {d : ℕ} {s : Bytes} {u v : Located} (h : u.In L d s)
    {names : List Bytes} (hv : u.lookup names = some v) : v.In L d s := by
  cases names with
  | nil => cases hv
  | cons a names =>
      cases names with
      | nil => exact Located.member_in h hv
      | cons m names =>
          cases names with
          | nil => exact Located.sticky_in h hv
          | cons _ _ => cases hv

theorem fieldValue_noNul {params : Value} (hwf : params.WF mjsonLexicon) {names : List Bytes}
    {raw : Bytes} (h : (params.lookup names).bind Phrase.string? = some raw) : nul ∉ raw := by
  have hin : Located.In ⟨0, params⟩ mjsonLexicon params.depth params.text :=
    ⟨hwf, le_rfl, List.prefix_rfl⟩
  rw [← Located.lookup_value ⟨0, params⟩, Option.bind_map, Option.bind_eq_some_iff] at h
  obtain ⟨u, hu, hraw⟩ := h
  have hwfu := (Located.lookup_in hin hu).wf
  obtain ⟨off, v⟩ := u
  cases v with
  | string raw' =>
      obtain rfl : raw' = raw := Option.some.inj hraw
      exact lexicon_noNul hwfu
  | _ => cases hraw

theorem filled_of_fillFields {params : Value} (hwf : params.WF mjsonLexicon)
    {s out : CompletionOut} (h : fillFields (completionSources params) s = (out, true)) :
    Filled params out := by
  have hnul : ∀ path raw, (params.lookup (pathNames path)).bind Phrase.string? = some raw →
      nul ∉ raw := fun path raw hraw => fieldValue_noNul hwf hraw
  obtain ⟨_, hfield, h⟩ := fillFields_cons h
  obtain ⟨_, rfl, hstatus⟩ := fillField_string (by decide) _ _ (hnul _) hfield
  obtain ⟨_, hfield, h⟩ := fillFields_cons h
  obtain ⟨_, rfl, hmessage⟩ := fillField_string (by decide) _ _ (hnul _) hfield
  obtain ⟨_, hfield, h⟩ := fillFields_cons h
  obtain ⟨_, rfl⟩ := fillField_int _ hfield
  obtain ⟨_, hfield, h⟩ := fillFields_cons h
  obtain ⟨_, rfl⟩ := fillField_double _ hfield
  obtain ⟨_, hfield, h⟩ := fillFields_cons h
  obtain ⟨_, rfl⟩ := fillField_double _ hfield
  obtain ⟨_, hfield, h⟩ := fillFields_cons h
  obtain ⟨_, rfl, hreference⟩ := fillField_string (by decide) _ _ (hnul _) hfield
  obtain ⟨_, hfield, h⟩ := fillFields_cons h
  obtain ⟨_, rfl, hpan⟩ := fillField_string (by decide) _ _ (hnul _) hfield
  obtain ⟨_, hfield, h⟩ := fillFields_cons h
  obtain ⟨_, rfl, htype⟩ := fillField_string (by decide) _ _ (hnul _) hfield
  obtain ⟨_, hfield, h⟩ := fillFields_cons h
  obtain ⟨_, rfl, hid⟩ := fillField_string (by decide) _ _ (hnul _) hfield
  obtain ⟨_, hfield, h⟩ := fillFields_cons h
  obtain ⟨_, rfl, htoken⟩ := fillField_string (by decide) _ _ (hnul _) hfield
  cases h
  exact ⟨hstatus, hmessage, hreference, hpan, htype, hid, htoken⟩

/-! ### Missing fields -/

/-- Completion events need their ten fields: an event is accepted only if it has them, an approved
one has an empty reference only if it says so, and the loop fails without them. -/
structure NeedsFields (json : Bytes) (len : ℕ) : Prop where
  accepted : ∀ strStatus pmtResp, (parseTransactionComplete json len strStatus pmtResp).ret = .ok →
    ∃ t i params, Denotes json len t i ∧ t.get (ascii "params") = some params ∧
      (∀ field ∈ completionFields, field.out.Typed (ownValue params field)) ∧
      ((parseTransactionComplete json len strStatus pmtResp).pmtResp.transactionReference.str = [] →
        memberText params (ascii "$.authorizationDetails.Transaction_Referance") = some [])
  refused : ∀ t i params, Denotes json len t i →
    Located.member ⟨i, t⟩ (ascii "params") = some params → params.value.tok = .object →
    (∃ field ∈ completionFields, ¬field.out.Typed (ownValue params.value field)) →
    ∀ out, (parseJsonFields (json.drop params.off) params.value.text.length completionFields
      out).2 = false

theorem parseJsonFields_iff {json : Bytes} {len i : ℕ} {params : Value}
    (h : Denotes json len params i) (out : CompletionOut) :
    (parseJsonFields json len completionFields out).2 = true ↔
      ∀ field ∈ completionFields, field.out.Accepts (fieldValue params field) := by
  rw [parseJsonFields_fill h fun _ hf => completionFields_names hf, fillFields_iff,
    List.forall_mem_map]

/-- A text that is a string where the lookup of a field leads. -/
theorem memberText_of_accepts {params : Value} {field : JsonField S} {n : ℕ}
    {get : S → CharArray n} {set : S → CharArray n → S} (hout : field.out = .string n get set)
    (hnames : IsShallow (pathNames field.jsonPath))
    (htyped : field.out.Typed (ownValue params field))
    (haccepts : field.out.Accepts (fieldValue params field)) :
    memberText params field.jsonPath = some (pathText params field.jsonPath) := by
  obtain ⟨v, hv⟩ : ∃ v, ownValue params field = some v := by
    rw [← Option.isSome_iff_exists]
    rw [hout] at htyped
    exact Option.isSome_of_isSome_bind htyped
  have hfield := fieldValue_of_own hnames hv
  rw [accepts_own_iff hnames htyped, hout] at haccepts
  obtain ⟨w, hw, -⟩ := haccepts
  have htext : pathText params field.jsonPath = (memberText params field.jsonPath).getD [] := by
    rw [ownValue] at hv
    rw [fieldValue] at hfield
    rw [pathText, fieldText, memberText, hv, hfield]
  rw [htext, Option.mem_def.mp hw, Option.getD_some]

def IsStringPath (path : Bytes) : Prop :=
  ∃ field ∈ completionFields, field.jsonPath = path ∧
    ∃ n get set, field.out = .string n get set

theorem memberText_of_fields {params : Value}
    (htyped : ∀ field ∈ completionFields, field.out.Typed (ownValue params field))
    (haccepts : ∀ field ∈ completionFields, field.out.Accepts (fieldValue params field))
    {path : Bytes} (hpath : IsStringPath path) :
    memberText params path = some (pathText params path) := by
  obtain ⟨field, hfield, rfl, n, get, set, hout⟩ := hpath
  exact memberText_of_accepts hout (completionFields_names hfield).2 (htyped field hfield)
    (haccepts field hfield)

theorem stringPath_status : IsStringPath (ascii "$.status") :=
  ⟨completionFields[0], List.getElem_mem _, rfl, _, _, _, rfl⟩

theorem stringPath_errorDescription : IsStringPath (ascii "$.errorDescription") :=
  ⟨completionFields[1], List.getElem_mem _, rfl, _, _, _, rfl⟩

theorem stringPath_reference :
    IsStringPath (ascii "$.authorizationDetails.Transaction_Referance") :=
  ⟨completionFields[5], List.getElem_mem _, rfl, _, _, _, rfl⟩

theorem stringPath_partialPan : IsStringPath (ascii "$.authorizationDetails.PartialPan") :=
  ⟨completionFields[6], List.getElem_mem _, rfl, _, _, _, rfl⟩

theorem stringPath_cardType : IsStringPath (ascii "$.authorizationDetails.CardType") :=
  ⟨completionFields[7], List.getElem_mem _, rfl, _, _, _, rfl⟩

theorem stringPath_cardId : IsStringPath (ascii "$.authorizationDetails.Card_ID") :=
  ⟨completionFields[8], List.getElem_mem _, rfl, _, _, _, rfl⟩

theorem stringPath_cardToken : IsStringPath (ascii "$.authorizationDetails.CardToken") :=
  ⟨completionFields[9], List.getElem_mem _, rfl, _, _, _, rfl⟩

/-- **Mandatory fields.** The fields are enforced just if none of them is missing, or one is refused
where its lookup leads. -/
theorem needsFields_iff (json : Bytes) (len : ℕ) :
    NeedsFields json len ↔
      ∀ t i params, Denotes json len t i → t.get (ascii "params") = some params →
        params.tok = .object →
        (∀ field ∈ completionFields, field.out.Typed (ownValue params field)) ∨
          ∃ field ∈ completionFields, ¬field.out.Accepts (fieldValue params field) := by
  constructor
  · intro h t i params ht hget hobj
    by_contra hno
    push Not at hno
    obtain ⟨hmissing, haccepts⟩ := hno
    rw [← Located.member_value ⟨i, t⟩, Option.map_eq_some_iff] at hget
    obtain ⟨located, hmember, rfl⟩ := hget
    have hfails := h.refused t i located ht hmember hobj hmissing ⟨.zero 32, .zero⟩
    have hpasses := (parseJsonFields_iff (ht.params hmember hobj) ⟨.zero 32, .zero⟩).mpr haccepts
    rw [hpasses] at hfails
    cases hfails
  · intro h
    constructor
    · intro strStatus pmtResp hret
      obtain ⟨⟨t, i, ht⟩, -⟩ := parseTransactionComplete_ok hret
      rw [ht.parseTransactionComplete_eq] at hret ⊢
      obtain ⟨id, params, hacceptable⟩ := acceptable_of_readCompletion hret
      obtain ⟨items, hitems⟩ := hacceptable.object
      have htyped : ∀ field ∈ completionFields, field.out.Typed (ownValue params field) := by
        rcases h t i params ht hacceptable.member (by rw [hitems]; rfl) with
          htyped | ⟨field, hfield, hrefused⟩
        · exact htyped
        · exact (hrefused (hacceptable.fields field hfield)).elim
      refine ⟨t, i, params, ht, hacceptable.member, htyped, ?_⟩
      intro hempty
      have hwf := wf_of_get ht.wf hacceptable.member
      obtain ⟨out, hout, hread⟩ := readCompletion_of_acceptable hacceptable strStatus pmtResp
      have hreference := (filled_of_fillFields hwf hout).transactionReference
      have hsame : (readCompletion t strStatus pmtResp).pmtResp.transactionReference =
          out.pmtResp.transactionReference := by
        rw [hread]
        cases transactionStatusTexts.lookup out.strStatus.str <;> rfl
      rw [hsame, hreference] at hempty
      rw [memberText_of_fields htyped hacceptable.fields stringPath_reference, hempty]
    · intro t i params ht hmember hobj hmissing out
      have hget : t.get (ascii "params") = some params.value := by
        rw [← Located.member_value ⟨i, t⟩, hmember]
        rfl
      rw [← Bool.not_eq_true, parseJsonFields_iff (ht.params hmember hobj)]
      intro haccepts
      obtain ⟨field, hfield, hnot⟩ := hmissing
      -- no field is missing, or another one is refused
      rcases h t i params.value ht hget hobj with htyped | ⟨other, hother, hrefused⟩
      · exact hnot (htyped field hfield)
      · exact hrefused (haccepts other hother)

def unreferenced : Value :=
  object [(ascii "method", .string (ascii "TransactionComplete")), (ascii "id", .number (ascii "77")),
    (ascii "params", object [(ascii "status", .string (ascii "OK")),
      (ascii "errorDescription", .string []), (ascii "errorCode", .number (ascii "0")),
      (ascii "authorizationDetails", object [(ascii "AmountAuthorized", .number (ascii "450")),
        (ascii "AmountRequested", .number (ascii "450")), (ascii "PartialPan", .string []),
        (ascii "CardType", .string []), (ascii "Card_ID", .string []),
        (ascii "CardToken", .string [])])])]

/-- An event without a reference is accepted, with an empty one. -/
theorem unreferenced_accepted :
    (parseTransactionComplete unreferenced.text unreferenced.text.length (.zero 32) .zero).ret = .ok ∧
      (parseTransactionComplete unreferenced.text unreferenced.text.length (.zero 32)
        .zero).pmtResp.status = .ok ∧
      (parseTransactionComplete unreferenced.text unreferenced.text.length (.zero 32)
        .zero).pmtResp.transactionReference.str = [] ∧
      ¬NeedsFields unreferenced.text unreferenced.text.length := by
  refine ⟨by decide +kernel, by decide +kernel, by decide +kernel, ?_⟩
  intro h
  have hdenotes : Denotes unreferenced.text unreferenced.text.length unreferenced 0 :=
    .of_text (by decide +kernel) (by decide +kernel) ⟨.curly, _, rfl⟩
  have hparams : (Located.member ⟨0, unreferenced⟩ (ascii "params")).map (fun params =>
      (decide (params.value.tok = .object ∧
        ∃ field ∈ completionFields, ¬field.out.Typed (ownValue params.value field)),
      (parseJsonFields (unreferenced.text.drop params.off) params.value.text.length
        completionFields ⟨.zero 32, .zero⟩).2)) = some (true, true) := by decide +kernel
  obtain ⟨params, hmember, hrun⟩ := Option.map_eq_some_iff.mp hparams
  obtain ⟨hmissing, hpasses⟩ := Prod.mk.inj hrun
  obtain ⟨hobj, hmissing⟩ := of_decide_eq_true hmissing
  have hfails := h.refused unreferenced 0 params hdenotes hmember hobj hmissing ⟨.zero 32, .zero⟩
  rw [hpasses] at hfails
  cases hfails

/-! ### Capacity -/

def memberStatus (params : Value) : Option TransactionStatus :=
  (memberText params (ascii "$.status")).bind fun w => transactionStatusTexts.lookup w

/-- A completion event that holds what it should, in strings that fit with their terminators. -/
structure CompletionText (json : Bytes) (len : ℕ) (t : Value) (i : ℕ) (params : Value) : Prop where
  wf : t.WF mjsonLexicon
  text : ∃ w r, IsBlank w ∧ w.length = i ∧ json = w ++ (t.text ++ r)
  len : i + t.text.length ≤ len
  id : ∃ d ∈ (t.get (ascii "id")).bind Phrase.number?, d.IsInt
  method : ((t.get (ascii "method")).bind Phrase.string?).bind decode =
    some (ascii "TransactionComplete")
  member : t.get (ascii "params") = some params
  object : params.tok = .object
  typed : ∀ field ∈ completionFields, field.out.Typed (ownValue params field)
  status : (memberStatus params).isSome
  fits : ∀ field ∈ completionFields, field.out.HasRoom 1 (memberText params field.jsonPath)

structure Carries (params : Value) (r : PaymentResponse) : Prop where
  status : memberStatus params = some r.status
  errorMessage : memberText params (ascii "$.errorDescription") = some r.errorMessage.str
  transactionReference : memberText params (ascii "$.authorizationDetails.Transaction_Referance") =
    some r.transactionReference.str
  partialPan : memberText params (ascii "$.authorizationDetails.PartialPan") = some r.partialPan.str
  cardType : memberText params (ascii "$.authorizationDetails.CardType") = some r.cardType.str
  cardId : memberText params (ascii "$.authorizationDetails.Card_ID") = some r.cardId.str
  cardToken : memberText params (ascii "$.authorizationDetails.CardToken") = some r.cardToken.str

/-- A text without any character that has an escape is spelled in one way only. -/
theorem decode_eq_self {raw w : Bytes} (h : decode raw = some w) (hw : ∀ c ∈ w, c ∉ escaped) :
    raw = w := by
  revert hw
  refine decode_induction (motive := fun raw w => (∀ c ∈ w, c ∉ escaped) → raw = w) ?_ ?_ ?_ ?_ h
  · exact fun _ => rfl
  · exact fun _ => rfl
  · intro c b s w hb _ hw
    exact (hw b List.mem_cons_self (List.of_mem_zip (mem_of_mjsonEsc hb)).2).elim
  · intro c s w _ ih hw
    rw [ih fun d hd => hw d (List.mem_cons_of_mem _ hd)]

section

variable {json : Bytes} {len i : ℕ} {t params : Value}

theorem CompletionText.denotes (h : CompletionText json len t i params)
    (hdepth : t.depth ≤ mjsonMaxDepth) : Denotes json len t i := by
  have hnode : ∃ b items, t = .node b items := by
    have hmember := h.member
    cases t with
    | node b items => exact ⟨b, items, rfl⟩
    | _ => cases hmember
  exact ⟨h.wf, hdepth, hnode, h.text, h.len⟩

/-- An event that is nested too deep is no message at all. -/
theorem CompletionText.not_denotes (h : CompletionText json len t i params)
    (hdepth : ¬t.depth ≤ mjsonMaxDepth) (t' : Value) (i' : ℕ) : ¬Denotes json len t' i' := by
  obtain ⟨w, r, hw, rfl, hs⟩ := h.text
  intro ht
  have hover := mjson_overflow h.wf (not_le.mp hdepth) hw hs h.len
  rw [ht.mjson_eq] at hover
  simp only at hover
  omega

theorem CompletionText.acceptable_iff (h : CompletionText json len t i params) :
    (∃ id, Acceptable t id params) ↔
      ∀ field ∈ completionFields, field.out.HasRoom 2 (memberText params field.jsonPath) := by
  have hfields : (∀ field ∈ completionFields, field.out.Accepts (fieldValue params field)) ↔
      ∀ field ∈ completionFields, field.out.HasRoom 2 (memberText params field.jsonPath) :=
    forall₂_congr fun field hfield =>
      accepts_own_iff (completionFields_names hfield).2 (h.typed field hfield)
  rw [← hfields]
  constructor
  · rintro ⟨id, hacceptable⟩
    exact hacceptable.fields
  · intro haccepts
    obtain ⟨d, hd, -⟩ := h.id
    obtain ⟨raw, hraw, hdecode⟩ := Option.bind_eq_some_iff.mp h.method
    obtain rfl : raw = ascii "TransactionComplete" := decode_eq_self hdecode (by decide)
    exact ⟨d.toInt, ⟨d, hd, rfl⟩, hraw, h.member, object_of_tok h.object, haccepts⟩

/-- **Capacity.** An event that holds what it should is delivered with its strings just if it is not
nested too deep, and each string leaves room for a terminator and one byte more. -/
theorem completion_carried_iff (h : CompletionText json len t i params) (strStatus : CharArray 32)
    (pmtResp : PaymentResponse) :
    (parseTransactionComplete json len strStatus pmtResp).ret = .ok ∧
        Carries params (parseTransactionComplete json len strStatus pmtResp).pmtResp ↔
      t.depth ≤ mjsonMaxDepth ∧
        ∀ field ∈ completionFields, field.out.HasRoom 2 (memberText params field.jsonPath) := by
  by_cases hdepth : t.depth ≤ mjsonMaxDepth
  · rw [(h.denotes hdepth).parseTransactionComplete_eq]
    constructor
    · rintro ⟨hret, -⟩
      obtain ⟨id, params', hacceptable⟩ := acceptable_of_readCompletion hret
      obtain rfl : params' = params := Option.some.inj (hacceptable.member.symm.trans h.member)
      exact ⟨hdepth, h.acceptable_iff.mp ⟨id, hacceptable⟩⟩
    · rintro ⟨-, hroom⟩
      obtain ⟨id, hacceptable⟩ := h.acceptable_iff.mpr hroom
      obtain ⟨out, hout, hread⟩ := readCompletion_of_acceptable hacceptable strStatus pmtResp
      have hfilled := filled_of_fillFields (wf_of_get h.wf h.member) hout
      have htext : ∀ {path}, IsStringPath path →
          memberText params path = some (pathText params path) :=
        memberText_of_fields h.typed hacceptable.fields
      obtain ⟨status, hstatus⟩ := Option.isSome_iff_exists.mp h.status
      have hlookup : transactionStatusTexts.lookup out.strStatus.str = some status := by
        rw [memberStatus, htext stringPath_status, Option.bind_some] at hstatus
        rw [hfilled.strStatus]
        exact hstatus
      rw [hread, hlookup]
      refine ⟨rfl, hstatus, ?_, ?_, ?_, ?_, ?_, ?_⟩
      · rw [htext stringPath_errorDescription, ← hfilled.errorMessage]
      · rw [htext stringPath_reference, ← hfilled.transactionReference]
      · rw [htext stringPath_partialPan, ← hfilled.partialPan]
      · rw [htext stringPath_cardType, ← hfilled.cardType]
      · rw [htext stringPath_cardId, ← hfilled.cardId]
      · rw [htext stringPath_cardToken, ← hfilled.cardToken]
  · refine iff_of_false ?_ fun hno => hdepth hno.1
    rintro ⟨hret, -⟩
    obtain ⟨⟨t', i', ht⟩, -⟩ := parseTransactionComplete_ok hret
    exact h.not_denotes hdepth t' i' ht

end

def panParams (pan : Bytes) : Value :=
  object [(ascii "status", .string (ascii "OK")), (ascii "errorDescription", .string []),
    (ascii "errorCode", .number (ascii "0")),
    (ascii "authorizationDetails", object [(ascii "AmountAuthorized", .number (ascii "450")),
      (ascii "AmountRequested", .number (ascii "450")),
      (ascii "Transaction_Referance", .string (ascii "R1")), (ascii "PartialPan", .string pan),
      (ascii "CardType", .string []), (ascii "Card_ID", .string []),
      (ascii "CardToken", .string [])])]

def eventWithPan (pan : Bytes) : Value :=
  object [(ascii "method", .string (ascii "TransactionComplete")), (ascii "id", .number (ascii "77")),
    (ascii "params", panParams pan)]

def pan18 : Bytes := ascii "411111111111111111"

theorem eventWithPan_carried_iff :
    (parseTransactionComplete (eventWithPan pan18).text (eventWithPan pan18).text.length (.zero 32)
          .zero).ret = .ok ∧
        Carries (panParams pan18) (parseTransactionComplete (eventWithPan pan18).text
          (eventWithPan pan18).text.length (.zero 32) .zero).pmtResp ↔
      (eventWithPan pan18).depth ≤ mjsonMaxDepth ∧
        ∀ field ∈ completionFields,
          field.out.HasRoom 2 (memberText (panParams pan18) field.jsonPath) :=
  completion_carried_iff (i := 0)
    ⟨by decide +kernel, ⟨[], [], isBlank_nil, rfl, by simp⟩, by simp,
      by decide +kernel, by decide +kernel, rfl, rfl, by decide +kernel, by decide +kernel,
      by decide +kernel⟩ _ _

def pan19 : Bytes := ascii "4111111111111111111"

/-- The event is dropped. -/
theorem eventWithPan_dropped :
    CompletionText (eventWithPan pan19).text (eventWithPan pan19).text.length (eventWithPan pan19) 0
        (panParams pan19) ∧
      (parseTransactionComplete (eventWithPan pan19).text (eventWithPan pan19).text.length (.zero 32)
        .zero).ret = .parsingError := by
  refine ⟨⟨?_, ⟨[], [], isBlank_nil, rfl, ?_⟩, ?_, ?_, ?_, rfl, rfl, ?_,
    ?_, ?_⟩, ?_⟩
  · decide +kernel
  · simp
  · simp
  · decide +kernel
  · decide +kernel
  · decide +kernel
  · decide +kernel
  · decide +kernel
  · decide +kernel

end OtiKiosk
