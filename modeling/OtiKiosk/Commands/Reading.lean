import OtiKiosk.Commands.Locality

/-!
Completion events as trees. What `parse_transaction_complete` makes of a message
depends on the values its lookups lead to: here it is a function of the tree of
the message, and each field of the table is read from a value, or from none.
-/

namespace OtiKiosk

open Ascii Json

variable {S : Type}

/-! ### Lookups in a tree -/

/-- What a path of two names leads to. -/
def Json.Phrase.sticky (v : Value) (a m : Bytes) : Option Value :=
  (v.pairs.dropWhile fun e => e.1 ≠ some a).findSome? fun e => e.2.get m

theorem Json.Located.sticky_value (u : Located) (a m : Bytes) :
    (u.sticky a m).map (·.value) = u.value.sticky a m := by
  have hlist : ∀ es : List (Option Bytes × Located),
      (es.findSome? fun e => e.2.member m).map (·.value) =
        (es.map fun e => (e.1, e.2.value)).findSome? fun e => e.2.get m := by
    intro es
    induction es with
    | nil => rfl
    | cons e es ih =>
        rw [List.map_cons, List.findSome?_cons, List.findSome?_cons, ← e.2.member_value]
        cases e.2.member m with
        | none => exact ih
        | some w => rfl
  rw [Phrase.sticky, ← u.members_values, List.dropWhile_map]
  exact hlist _

def Json.Phrase.lookup (v : Value) : List Bytes → Option Value
  | [n] => v.get n
  | [a, m] => v.sticky a m
  | _ => none

theorem Json.Located.lookup_value (u : Located) (names : List Bytes) :
    (u.lookup names).map (·.value) = u.value.lookup names := by
  match names with
  | [] => rfl
  | [n] => exact u.member_value n
  | [a, m] => exact u.sticky_value a m
  | _ :: _ :: _ :: _ => rfl

/-! ### Fields -/

def fieldValue (params : Value) (field : JsonField S) : Option Value :=
  params.lookup (pathNames field.jsonPath)

def fillField (out : JsonOut S) (v : Option Value) (s : S) : S × Bool :=
  match out with
  | .string n get set =>
      match v.bind Phrase.string? with
      | none => (set s ((get s).terminate 0), true)
      | some raw =>
          let (written, ret) := mjsonUnescape raw (n - 1)
          let out := (get s).write written
          match ret with
          | none => (set s out, false)
          | some l => (set s (out.terminate l), true)
  | .bool set =>
      match v.bind Phrase.bool? with
      | none => (s, false)
      | some bv => (set s bv, true)
  | .int set =>
      match v.bind Phrase.number? with
      | none => (s, false)
      | some dv => if dv.IsInt then (set s dv.toInt, true) else (s, false)
  | .double set =>
      match v.bind Phrase.number? with
      | none => (s, false)
      | some dv => (set s dv, true)

def fillFields : List (JsonOut S × Option Value) → S → S × Bool
  | [], s => (s, true)
  | (out, v) :: fields, s =>
      match fillField out v s with
      | (s', false) => (s', false)
      | (s', true) => fillFields fields s'

def JsonOut.Accepts : JsonOut S → Option Value → Prop
  | .string n _ _, v => ∀ raw, v.bind Phrase.string? = some raw →
      ∃ w, decode raw = some w ∧ w.length < n - 1
  | .bool _, v => ∃ b, v.bind Phrase.bool? = some b
  | .int _, v => ∃ d, v.bind Phrase.number? = some d ∧ d.IsInt
  | .double _, v => ∃ d, v.bind Phrase.number? = some d

theorem fillField_iff (out : JsonOut S) (v : Option Value) (s : S) :
    (fillField out v s).2 = true ↔ out.Accepts v := by
  cases out with
  | string n get set =>
      simp only [fillField, JsonOut.Accepts]
      cases v.bind Phrase.string? with
      | none => simp
      | some raw =>
          simp only [Option.some.injEq, forall_eq']
          constructor
          · intro h
            cases hread : mjsonUnescape raw (n - 1) with
            | mk written ret =>
                cases ret with
                | none =>
                    rw [hread] at h
                    cases h
                | some l =>
                    obtain ⟨w, -, -, hdecode, hlen⟩ := mjsonUnescape_some hread
                    exact ⟨w, hdecode, hlen⟩
          · rintro ⟨w, hdecode, hlen⟩
            rw [(mjsonUnescape_eq_iff raw w (n - 1)).mpr ⟨hdecode, hlen⟩]
  | bool set =>
      simp only [fillField, JsonOut.Accepts]
      cases v.bind Phrase.bool? <;> simp
  | int set =>
      simp only [fillField, JsonOut.Accepts]
      cases v.bind Phrase.number? with
      | none => simp
      | some dv => by_cases hint : dv.IsInt <;> simp [hint]
  | double set =>
      simp only [fillField, JsonOut.Accepts]
      cases v.bind Phrase.number? <;> simp

theorem fillFields_iff (fields : List (JsonOut S × Option Value)) (s : S) :
    (fillFields fields s).2 = true ↔ ∀ f ∈ fields, f.1.Accepts f.2 := by
  induction fields generalizing s with
  | nil => simp [fillFields]
  | cons field fields ih =>
      obtain ⟨out, v⟩ := field
      rw [List.forall_mem_cons, ← fillField_iff out v s, fillFields]
      cases fillField out v s with
      | mk s' ok =>
          cases ok with
          | false => simp
          | true => simpa using ih s'

section

variable {json : Bytes} {len i : ℕ} {params : Value}

theorem parseJsonField_fill (h : Denotes json len params i) {field : JsonField S}
    (hpath : field.jsonPath = pathOf (pathNames field.jsonPath))
    (hnames : IsShallow (pathNames field.jsonPath)) (s : S) :
    parseJsonField json len field s = fillField field.out (fieldValue params field) s := by
  obtain ⟨hfind, hmember⟩ := h.mjsonFind_lookup hnames
  rw [← hpath] at hfind
  have hvalue : fieldValue params field =
      (Located.lookup ⟨i, params⟩ (pathNames field.jsonPath)).map (·.value) :=
    (Located.lookup_value ⟨i, params⟩ _).symm
  have hbind : ∀ {α : Type} (read : Value → Option α),
      ((fieldValue params field).bind read) =
        (Located.lookup ⟨i, params⟩ (pathNames field.jsonPath)).bind fun v => read v.value := by
    intro α read
    rw [hvalue, Option.bind_map]
    rfl
  simp only [parseJsonField, fillField, hbind, mjsonGetBool_of hfind,
    mjsonGetNumber_of hfind hmember, mjsonGetString_of hfind hmember]
  cases field.out with
  | string n get set =>
      cases (Located.lookup ⟨i, params⟩ (pathNames field.jsonPath)).bind
          fun v => v.value.string? with
      | none => simp only [CharArray.write_nil]
      | some raw => rfl
  | bool set => rfl
  | int set => rfl
  | double set => rfl

/-- `parse_json_fields` on the text of an object. -/
theorem parseJsonFields_fill (h : Denotes json len params i) {fields : List (JsonField S)}
    (hfields : ∀ f ∈ fields, f.jsonPath = pathOf (pathNames f.jsonPath) ∧
      IsShallow (pathNames f.jsonPath)) (s : S) :
    parseJsonFields json len fields s =
      fillFields (fields.map fun f => (f.out, fieldValue params f)) s := by
  induction fields generalizing s with
  | nil => rfl
  | cons field fields ih =>
      obtain ⟨hpath, hnames⟩ := hfields field List.mem_cons_self
      rw [parseJsonFields, List.map_cons, fillFields, parseJsonField_fill h hpath hnames]
      cases fillField field.out (fieldValue params field) s with
      | mk s' ok =>
          cases ok with
          | false => rfl
          | true => exact ih (fun f hf => hfields f (List.mem_cons_of_mem _ hf)) s'

end

/-! ### Messages -/

def completionSources (params : Value) : List (JsonOut CompletionOut × Option Value) :=
  completionFields.map fun f => (f.out, fieldValue params f)

/-- `parse_transaction_complete`, on the tree of a message. -/
def readCompletion (message : Value) (strStatus : CharArray 32) (pmtResp : PaymentResponse) :
    CompletionResult :=
  match (message.get (ascii "id")).bind Phrase.number? with
  | none => ⟨.parsingError, pmtResp, none⟩
  | some id =>
      if (message.get (ascii "method")).bind Phrase.string? ≠ some (ascii "TransactionComplete") then
        ⟨.parsingError, .zero, some id.toInt⟩
      else
        match message.get (ascii "params") with
        | some (.node .curly items) =>
            match fillFields (completionSources (.node .curly items)) ⟨strStatus, .zero⟩ with
            | (out, false) => ⟨.parsingError, out.pmtResp, some id.toInt⟩
            | (out, true) =>
                match transactionStatusTexts.lookup out.strStatus.str with
                | none => ⟨.parsingError, out.pmtResp, some id.toInt⟩
                | some status => ⟨.ok, { out.pmtResp with status := status }, some id.toInt⟩
        | _ => ⟨.parsingError, .zero, some id.toInt⟩

section

variable {s : Bytes} {len i : ℕ} {t : Value}

theorem Denotes.methodIs_iff (h : Denotes s len t i) (name : Bytes) :
    methodIs s len name ↔ (t.get (ascii "method")).bind Phrase.string? = some name := by
  obtain ⟨hfind, hmember⟩ := h.find_member (n := ascii "method") (by decide)
  rw [← Located.member_value ⟨i, t⟩, Option.bind_map]
  simp only [methodIs, path_method, hfind]
  cases hmethod : Located.member ⟨i, t⟩ (ascii "method") with
  | none => simp [Found.of, found_none_tok]
  | some v =>
      obtain ⟨r, hr⟩ := (hmember v hmethod).inText.text
      obtain ⟨off, v⟩ := v
      simp only [Found.of]
      rw [← hr, List.take_left]
      cases v with
      | string raw =>
          simp only [Phrase.tok, Phrase.text, true_and, Option.bind_some, Function.comp_apply,
            Phrase.string?, Option.some.injEq]
          constructor
          · rintro ⟨-, hquoted⟩
            exact List.append_cancel_right (List.cons.inj hquoted).2
          · rintro rfl
            simp [quoted]
      | node b items => cases b <;> simp [Phrase.tok, Bracket.openTok, Phrase.string?]
      | true => simp [Phrase.tok, Phrase.string?]
      | false => simp [Phrase.tok, Phrase.string?]
      | null => simp [Phrase.tok, Phrase.string?]
      | number raw => simp [Phrase.tok, Phrase.string?]

theorem Denotes.parseId_get (h : Denotes s len t i) :
    parseId s len = ((t.get (ascii "id")).bind Phrase.number?).map Double.toInt := by
  rw [h.parseId_eq, messageId, ← Located.member_value ⟨i, t⟩, Option.bind_map]
  rfl

/-- The parameters of a message are a text of their own. -/
theorem Denotes.params (h : Denotes s len t i) {params : Located}
    (hparams : Located.member ⟨i, t⟩ (ascii "params") = some params)
    (hobj : params.value.tok = .object) :
    Denotes (s.drop params.off) params.value.text.length params.value 0 := by
  have hin : params.In mjsonLexicon mjsonMaxDepth s := Located.member_in h.in hparams
  obtain ⟨items, hitems⟩ := object_of_tok hobj
  exact hin.denotes le_rfl ⟨.curly, items, hitems⟩

/-- **Reading.** The parser sees the tree of a message only. -/
theorem Denotes.parseTransactionComplete_eq (h : Denotes s len t i) (strStatus : CharArray 32)
    (pmtResp : PaymentResponse) :
    parseTransactionComplete s len strStatus pmtResp = readCompletion t strStatus pmtResp := by
  have hfind := h.mjsonFind_member (n := ascii "params") (by decide)
  rw [← path_params] at hfind
  simp only [parseTransactionComplete, readCompletion, h.parseId_get, hfind]
  cases (t.get (ascii "id")).bind Phrase.number? with
  | none => rfl
  | some id =>
      simp only [Option.map_some, h.methodIs_iff]
      by_cases hmethod : (t.get (ascii "method")).bind Phrase.string? =
          some (ascii "TransactionComplete")
      · rw [if_neg (not_not_intro hmethod), if_neg (not_not_intro hmethod),
          ← Located.member_value ⟨i, t⟩]
        cases hparams : Located.member ⟨i, t⟩ (ascii "params") with
        | none => rfl
        | some params =>
            have hread : params.value.tok = .object →
                parseJsonFields (s.drop params.off) params.value.text.length completionFields
                  ⟨strStatus, .zero⟩ = fillFields (completionSources params.value) ⟨strStatus, .zero⟩ :=
              fun hobj => parseJsonFields_fill (h.params hparams hobj)
                (fun f hf => completionFields_names hf) _
            obtain ⟨off, v⟩ := params
            simp only [Found.of, Option.map_some]
            cases v with
            | node b items =>
                cases b with
                | curly =>
                    have hobj : ¬(Phrase.node .curly items).tok ≠ .object := not_not_intro rfl
                    refine (if_neg hobj).trans ?_
                    rewrite [hread rfl]
                    rfl
                | square => rfl
            | _ => rfl
      · rw [if_pos hmethod, if_pos hmethod]

end

/-! ### Acceptance -/

/-- A tree that is accepted: what is looked up is there, as far as the parser checks. -/
structure Acceptable (message : Value) (id : ℤ) (params : Value) : Prop where
  id : ∃ d, (message.get (ascii "id")).bind Phrase.number? = some d ∧ d.toInt = id
  method : (message.get (ascii "method")).bind Phrase.string? = some (ascii "TransactionComplete")
  member : message.get (ascii "params") = some params
  object : ∃ items, params = .node .curly items
  fields : ∀ field ∈ completionFields, field.out.Accepts (fieldValue params field)

theorem readCompletion_of_acceptable {message params : Value} {id : ℤ}
    (h : Acceptable message id params) (strStatus : CharArray 32) (pmtResp : PaymentResponse) :
    ∃ out, fillFields (completionSources params) ⟨strStatus, .zero⟩ = (out, true) ∧
      readCompletion message strStatus pmtResp =
        match transactionStatusTexts.lookup out.strStatus.str with
        | none => ⟨.parsingError, out.pmtResp, some id⟩
        | some status => ⟨.ok, { out.pmtResp with status := status }, some id⟩ := by
  obtain ⟨d, hd, rfl⟩ := h.id
  obtain ⟨items, rfl⟩ := h.object
  have hfills : (fillFields (completionSources (.node .curly items)) ⟨strStatus, .zero⟩).2 = true := by
    rw [fillFields_iff, completionSources, List.forall_mem_map]
    exact h.fields
  cases hout : fillFields (completionSources (.node .curly items)) ⟨strStatus, .zero⟩ with
  | mk out ok =>
      rw [hout] at hfills
      obtain rfl : ok = true := hfills
      refine ⟨out, rfl, ?_⟩
      simp only [readCompletion, hd, h.method, h.member, hout, ne_eq, not_true_eq_false, if_false]

theorem acceptable_of_readCompletion {message : Value} {strStatus : CharArray 32}
    {pmtResp : PaymentResponse} (h : (readCompletion message strStatus pmtResp).ret = .ok) :
    ∃ id params, Acceptable message id params := by
  rw [readCompletion] at h
  cases hid : (message.get (ascii "id")).bind Phrase.number? with
  | none =>
      rw [hid] at h
      cases h
  | some d =>
      simp only [hid] at h
      by_cases hmethod : (message.get (ascii "method")).bind Phrase.string? =
          some (ascii "TransactionComplete")
      · rw [if_neg (not_not_intro hmethod)] at h
        split at h
        · next items hparams =>
            refine ⟨d.toInt, .node .curly items, ⟨d, hid, rfl⟩, hmethod, hparams, ⟨items, rfl⟩, ?_⟩
            have hfills :
                (fillFields (completionSources (.node .curly items)) ⟨strStatus, .zero⟩).2 = true := by
              split at h
              · cases h
              · next hout => rw [hout]
            rw [fillFields_iff, completionSources, List.forall_mem_map] at hfills
            exact hfills
        · cases h
      · rw [if_pos hmethod] at h
        cases h

end OtiKiosk
