import OtiKiosk.Commands.Identity

/-!
Where the values of a completion event come from. A field of the response is
decoded from the place its path leads to; the reference is the member at that
path in the tree of the message. The two differ when `authorizationDetails`
lacks a member and a later member of `params` is an object that has it.
-/

namespace OtiKiosk

open Ascii Json

variable {S : Type}

/-! ### Sources -/

/-- The tokens a field is decoded from. -/
def JsonOut.toks : JsonOut S → List Tok
  | .string _ _ _ => [.string]
  | .bool _ => [.true, .false]
  | .int _ => [.number]
  | .double _ => [.number]

def fieldSource (json : Bytes) (len : ℕ) (field : JsonField S) : Option Found :=
  let f := mjsonFind json len field.jsonPath
  if f.tok ∈ field.out.toks then some f else none

def pathNames (path : Bytes) : List Bytes := (path.drop 2).splitOn dot

def memberSource (params : Value) (field : JsonField S) : Option Found :=
  let f := Found.of (Located.at ⟨0, params⟩ (pathNames field.jsonPath))
  if f.tok ∈ field.out.toks then some f else none

def readField (json : Bytes) (out : JsonOut S) (source : Option Found) (s : S) : S × Bool :=
  match out, source with
  | .string _ get set, none => (set s ((get s).terminate 0), true)
  | .string n get set, some f =>
      let (written, ret) := mjsonUnescape ((json.drop (f.off + 1)).take (f.len - 2)) (n - 1)
      let out := (get s).write written
      match ret with
      | none => (set s out, false)
      | some l => (set s (out.terminate l), true)
  | .bool set, some f => (set s (f.tok = .true), true)
  | .int set, some f =>
      let dv := (strtod (json.drop f.off)).1
      if dv.IsInt then (set s dv.toInt, true) else (s, false)
  | .double set, some f => (set s (strtod (json.drop f.off)).1, true)
  | _, none => (s, false)

def readFields (json : Bytes) : List (JsonOut S × Option Found) → S → S × Bool
  | [], s => (s, true)
  | (out, source) :: fields, s =>
      match readField json out source s with
      | (s', false) => (s', false)
      | (s', true) => readFields json fields s'

theorem CharArray.write_nil {n : ℕ} (a : CharArray n) : a.write [] = a := by
  obtain ⟨bytes, rfl⟩ := a
  simp [CharArray.write]

theorem parseJsonField_eq (json : Bytes) (len : ℕ) (field : JsonField S) (s : S) :
    parseJsonField json len field s = readField json field.out (fieldSource json len field) s := by
  obtain ⟨path, out⟩ := field
  cases out with
  | string n get set =>
      by_cases htok : (mjsonFind json len path).tok = .string
      · have hsource : fieldSource json len ⟨path, .string n get set⟩ =
            some (mjsonFind json len path) := by
          simp only [fieldSource, JsonOut.toks, htok, List.mem_singleton, if_true]
        simp only [parseJsonField, mjsonGetString, htok, ne_eq, not_true_eq_false, if_false]
        exact congrArg (readField json (.string n get set) · s) hsource.symm
      · simp only [parseJsonField, mjsonGetString, fieldSource, JsonOut.toks, htok, ne_eq,
          not_false_eq_true, if_true, List.mem_singleton, if_false, readField,
          CharArray.write_nil]
  | bool set =>
      simp only [parseJsonField, mjsonGetBool, fieldSource, JsonOut.toks, List.mem_cons,
        List.not_mem_nil, or_false]
      cases htok : (mjsonFind json len path).tok <;> simp [readField, htok]
  | int set =>
      simp only [parseJsonField, mjsonGetNumber, fieldSource, JsonOut.toks, List.mem_singleton]
      split_ifs with htok
      · simp only [readField]
      · rfl
  | double set =>
      simp only [parseJsonField, mjsonGetNumber, fieldSource, JsonOut.toks, List.mem_singleton]
      split_ifs with htok <;> rfl

/-- The fields are decoded from their sources and from nowhere else. -/
theorem parseJsonFields_eq (json : Bytes) (len : ℕ) (fields : List (JsonField S)) (s : S) :
    parseJsonFields json len fields s =
      readFields json (fields.map fun f => (f.out, fieldSource json len f)) s := by
  induction fields generalizing s with
  | nil => rfl
  | cons field fields ih =>
      simp only [parseJsonFields, List.map_cons, readFields, parseJsonField_eq]
      cases readField json field.out (fieldSource json len field) s with
      | mk s' ok =>
          cases ok with
          | false => rfl
          | true => exact ih s'

/-! ### Sources and members -/

/-- A member of that name of an object that comes after the first member called `a`. -/
def laterMember (params : Value) (a m : Bytes) : Option Located :=
  ((Located.members ⟨0, params⟩).dropWhile fun e => e.1 ≠ some a).tail.findSome? fun e =>
    e.2.member m

/-- No other object of `params` stands in for a missing member. -/
def Undisturbed (params : Value) (field : JsonField S) : Prop :=
  ∀ a m, pathNames field.jsonPath = [a, m] →
    (Located.at ⟨0, params⟩ [a, m]).isSome = true ∨
      ∀ x, laterMember params a m = some x → x.value.tok ∉ field.out.toks

theorem find?_eq_head?_dropWhile {α : Type} (p : α → Bool) (l : List α) :
    l.find? p = (l.dropWhile fun x => !p x).head? := by
  induction l with
  | nil => rfl
  | cons x l ih =>
      cases h : p x with
      | true => simp [h]
      | false => simp [h, ih]

theorem sticky_eq (params : Value) (a m : Bytes) :
    Located.sticky ⟨0, params⟩ a m =
      (Located.at ⟨0, params⟩ [a, m]).or (laterMember params a m) := by
  have hfind : Located.member ⟨0, params⟩ a =
      (((Located.members ⟨0, params⟩).dropWhile fun e => e.1 ≠ some a).head?).map Prod.snd := by
    rw [Located.member, find?_eq_head?_dropWhile]
    simp
  simp only [Located.sticky, laterMember, Located.at, hfind]
  cases (Located.members ⟨0, params⟩).dropWhile fun e => e.1 ≠ some a with
  | nil => rfl
  | cons e es =>
      simp only [List.findSome?_cons, List.head?_cons, Option.map_some, Option.bind_some,
        List.tail_cons]
      cases e.2.member m with
      | none => rfl
      | some x => rfl

theorem found_none_tok : Found.none.tok = .invalid := rfl

theorem toks_valid (out : JsonOut S) : Tok.invalid ∉ out.toks := by
  cases out <;> simp [JsonOut.toks]

/-- The source of a field is its member exactly when nothing else stands in for it. -/
theorem fieldSource_eq_iff {json : Bytes} {len : ℕ} {params : Value}
    (h : Denotes json len params 0) (field : JsonField S)
    (hpath : field.jsonPath = pathOf (pathNames field.jsonPath))
    (hnames : ∀ n ∈ pathNames field.jsonPath, IsName n)
    (hlen : (∃ n, pathNames field.jsonPath = [n]) ∨ ∃ a m, pathNames field.jsonPath = [a, m]) :
    fieldSource json len field = memberSource params field ↔ Undisturbed params field := by
  simp only [fieldSource, memberSource]
  rcases hlen with ⟨n, hn⟩ | ⟨a, m, ham⟩
  · have hfind : mjsonFind json len field.jsonPath = .of (Located.at ⟨0, params⟩ [n]) := by
      rw [hpath, hn, h.mjsonFind_member (hnames n (by simp [hn]))]
      simp [Located.at]
    rw [hfind, hn]
    refine ⟨fun _ a m ham => ?_, fun _ => rfl⟩
    rw [hn] at ham
    cases ham
  · have hfind : mjsonFind json len field.jsonPath =
        .of ((Located.at ⟨0, params⟩ [a, m]).or (laterMember params a m)) := by
      rw [hpath, ham, h.mjsonFind_sticky (hnames a (by simp [ham])) (hnames m (by simp [ham])),
        sticky_eq]
    have hundisturbed : Undisturbed params field ↔
        (Located.at ⟨0, params⟩ [a, m]).isSome = true ∨
          ∀ x, laterMember params a m = some x → x.value.tok ∉ field.out.toks := by
      refine ⟨fun hu => hu a m ham, fun hu a' m' ham' => ?_⟩
      rw [ham] at ham'
      cases ham'
      exact hu
    rw [hfind, ham, hundisturbed]
    -- another object stands in only if the member is missing and the type fits
    cases Located.at ⟨0, params⟩ [a, m] with
    | some x => exact ⟨fun _ => .inl rfl, fun _ => rfl⟩
    | none =>
        cases laterMember params a m with
        | none => simp
        | some x =>
            simp [Found.of, found_none_tok, toks_valid]

/-- The paths of the completion fields are one or two plain names. -/
theorem completionFields_paths {field : JsonField CompletionOut} (h : field ∈ completionFields) :
    field.jsonPath = pathOf (pathNames field.jsonPath) ∧
      (∀ n ∈ pathNames field.jsonPath, IsName n) ∧
      ((∃ n, pathNames field.jsonPath = [n]) ∨ ∃ a m, pathNames field.jsonPath = [a, m]) := by
  have hall : ∀ path ∈ completionFields.map (·.jsonPath),
      path = pathOf (pathNames path) ∧ (∀ n ∈ pathNames path, IsName n) ∧
        ((pathNames path).length = 1 ∨ (pathNames path).length = 2) := by decide +kernel
  obtain ⟨hpath, hnames, hlen⟩ := hall field.jsonPath (List.mem_map_of_mem h)
  refine ⟨hpath, hnames, ?_⟩
  rcases hlen with hlen | hlen
  · exact .inl (List.length_eq_one_iff.mp hlen)
  · exact .inr (List.length_eq_two.mp hlen)

theorem path_params : ascii "$.params" = pathOf [ascii "params"] := by decide

theorem object_of_tok {v : Value} (h : v.tok = .object) : ∃ items, v = .node .curly items := by
  cases v with
  | node b items =>
      cases b with
      | curly => exact ⟨items, rfl⟩
      | square => cases h
  | true => cases h
  | false => cases h
  | null => cases h
  | number raw => cases h
  | string raw => cases h

/-- An accepted completion event: it has a tree, `params` of which is an object, and the response
is decoded from the sources of the fields. -/
theorem parseTransactionComplete_ok {msg : Bytes} {len : ℕ} {strStatus : CharArray 32}
    {pmtResp : PaymentResponse}
    (h : (parseTransactionComplete msg len strStatus pmtResp).ret = .ok) :
    (∃ t i, Denotes msg len t i) ∧ ∀ t i, Denotes msg len t i → ∃ params items out status,
      Located.member ⟨i, t⟩ (ascii "params") = some params ∧ params.value = .node .curly items ∧
      readFields (msg.drop params.off) (completionFields.map fun f =>
        (f.out, fieldSource (msg.drop params.off) params.value.text.length f))
          ⟨strStatus, .zero⟩ = (out, true) ∧
      transactionStatusTexts.lookup out.strStatus.str = some status ∧
      (parseTransactionComplete msg len strStatus pmtResp).pmtResp =
        { out.pmtResp with status := status } := by
  simp only [parseTransactionComplete] at h ⊢
  cases hid : parseId msg len with
  | none =>
      rw [hid] at h
      cases h
  | some id =>
      refine ⟨parseId_denotes hid, ?_⟩
      intro t i ht
      simp only [hid] at h ⊢
      by_cases hmethod : methodIs msg len (ascii "TransactionComplete")
      · rw [if_neg (not_not_intro hmethod)] at h ⊢
        have hfind := ht.mjsonFind_member (n := ascii "params") (by decide)
        rw [← path_params] at hfind
        by_cases hobj : (mjsonFind msg len (ascii "$.params")).tok = .object
        · rw [if_neg (not_not_intro hobj)] at h ⊢
          cases hparams : Located.member ⟨i, t⟩ (ascii "params") with
          | none =>
              rw [hfind, hparams] at hobj
              cases hobj
          | some params =>
              rw [hparams] at hfind
              rw [hfind] at hobj
              obtain ⟨items, hitems⟩ := object_of_tok hobj
              rw [hfind] at h ⊢
              simp only [Found.of, parseJsonFields_eq] at h ⊢
              split at h
              · cases h
              · next out hread =>
                  split at h
                  · cases h
                  · next status hstatus =>
                      exact ⟨params, items, out, status, rfl, hitems, hread, hstatus, rfl⟩
        · rw [if_pos hobj] at h
          cases h
      · rw [if_pos hmethod] at h
        cases h

def FromOwnMembers (msg : Bytes) (params : Located) : Prop :=
  ∀ field ∈ completionFields,
    fieldSource (msg.drop params.off) params.value.text.length field =
      memberSource params.value field

instance (msg : Bytes) (params : Located) : Decidable (FromOwnMembers msg params) :=
  inferInstanceAs (Decidable (∀ field ∈ completionFields, _))

/-- **Provenance of completion fields.** In an accepted event every field is decoded from its own
member of `params` exactly when no other object of `params` stands in for a missing member. -/
theorem completion_fromOwnMembers_iff {msg : Bytes} {len : ℕ} {strStatus : CharArray 32}
    {pmtResp : PaymentResponse}
    (h : (parseTransactionComplete msg len strStatus pmtResp).ret = .ok) :
    (∃ t i, Denotes msg len t i) ∧ ∀ t i, Denotes msg len t i → ∃ params items out status,
      Located.member ⟨i, t⟩ (ascii "params") = some params ∧ params.value = .node .curly items ∧
      readFields (msg.drop params.off) (completionFields.map fun f =>
        (f.out, fieldSource (msg.drop params.off) params.value.text.length f))
          ⟨strStatus, .zero⟩ = (out, true) ∧
      transactionStatusTexts.lookup out.strStatus.str = some status ∧
      (parseTransactionComplete msg len strStatus pmtResp).pmtResp =
        { out.pmtResp with status := status } ∧
      (FromOwnMembers msg params ↔
        ∀ field ∈ completionFields, Undisturbed params.value field) := by
  obtain ⟨hex, hall⟩ := parseTransactionComplete_ok h
  refine ⟨hex, ?_⟩
  intro t i ht
  obtain ⟨params, items, out, status, hparams, hitems, hread, hstatus, hresp⟩ := hall t i ht
  refine ⟨params, items, out, status, hparams, hitems, hread, hstatus, hresp, ?_⟩
  have hin : params.In mjsonLexicon mjsonMaxDepth msg := Located.member_in ht.in hparams
  have hdenotes := hin.denotes le_rfl ⟨.curly, items, hitems⟩
  refine forall₂_congr ?_
  intro field hfield
  obtain ⟨hpath, hnames, hlen⟩ := completionFields_paths hfield
  exact fieldSource_eq_iff hdenotes field hpath hnames hlen

def strayReference : Value :=
  object [(ascii "method", .string (ascii "TransactionComplete")), (ascii "id", .number (ascii "77")),
    (ascii "params", object [(ascii "status", .string (ascii "OK")),
      (ascii "errorDescription", .string []), (ascii "errorCode", .number (ascii "0")),
      (ascii "authorizationDetails", object [(ascii "AmountAuthorized", .number (ascii "450")),
        (ascii "AmountRequested", .number (ascii "450")), (ascii "PartialPan", .string []),
        (ascii "CardType", .string []), (ascii "Card_ID", .string []),
        (ascii "CardToken", .string [])]),
      (ascii "previous", object [(ascii "Transaction_Referance", .string (ascii "R2"))])])]

theorem strayReference_denotes :
    Denotes strayReference.text strayReference.text.length strayReference 0 :=
  ⟨by decide +kernel, by decide +kernel, ⟨.curly, _, rfl⟩, ⟨[], [], nofun, rfl, by simp⟩, by simp⟩

theorem strayReference_accepted :
    (parseTransactionComplete strayReference.text strayReference.text.length (.zero 32)
      .zero).ret = .ok := by decide +kernel

theorem strayReference_fromOwnMembers_iff :
    ∃ params, Located.member ⟨0, strayReference⟩ (ascii "params") = some params ∧
      (FromOwnMembers strayReference.text params ↔
        ∀ field ∈ completionFields, Undisturbed params.value field) := by
  obtain ⟨params, _, _, _, hparams, _, _, _, _, hiff⟩ :=
    (completion_fromOwnMembers_iff strayReference_accepted).2 _ _ strayReference_denotes
  exact ⟨params, hparams, hiff⟩

/-- The reference of the other object is stored. -/
theorem strayReference_stored :
    Denotes strayReference.text strayReference.text.length strayReference 0 ∧
      (parseTransactionComplete strayReference.text strayReference.text.length (.zero 32)
        .zero).ret = .ok ∧
      Located.at ⟨0, strayReference⟩
        [ascii "params", ascii "authorizationDetails", ascii "Transaction_Referance"] = none ∧
      (parseTransactionComplete strayReference.text strayReference.text.length (.zero 32)
        .zero).pmtResp.transactionReference.str = ascii "R2" ∧
      ∃ params, Located.member ⟨0, strayReference⟩ (ascii "params") = some params ∧
        ¬FromOwnMembers strayReference.text params := by
  refine ⟨strayReference_denotes, strayReference_accepted, by decide +kernel, by decide +kernel, ?_⟩
  have hmember : (Located.member ⟨0, strayReference⟩ (ascii "params")).map
      (fun params => decide (FromOwnMembers strayReference.text params)) = some false := by
    decide +kernel
  obtain ⟨params, hparams, hown⟩ := Option.map_eq_some_iff.mp hmember
  exact ⟨params, hparams, of_decide_eq_false hown⟩

end OtiKiosk
