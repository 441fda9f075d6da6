import OtiKiosk.Commands.Provenance
import OtiKiosk.Mjson.Unescape

/-!
What the parsers make of a message depends on the bytes of the message only:
neither on the memory after it, nor on what a local array or the response
happened to hold before.
-/

namespace OtiKiosk

open Ascii Json

/-! ### The memory after a message -/

inductive IsShallow : List Bytes → Prop
  | one {n : Bytes} : IsName n → IsShallow [n]
  | two {a m : Bytes} : IsName a → IsName m → IsShallow [a, m]

def Json.Located.lookup (v : Located) : List Bytes → Option Located
  | [n] => v.member n
  | [a, m] => v.sticky a m
  | _ => none

section

variable {s s' : Bytes} {len : ℕ} {names : List Bytes}

theorem Denotes.mjsonFind_lookup {t : Value} {i : ℕ} (h : Denotes s len t i)
    (hnames : IsShallow names) :
    mjsonFind s len (pathOf names) = .of (Located.lookup ⟨i, t⟩ names) ∧
      ∀ u, Located.lookup ⟨i, t⟩ names = some u → u.Member s := by
  cases hnames with
  | one hn => exact ⟨h.mjsonFind_member hn, fun _ hu => member_of_member h.in hu⟩
  | two ha hm => exact ⟨h.mjsonFind_sticky ha hm, fun _ hu => member_of_sticky h.in hu⟩

theorem mjsonFind_shallow_none (h : ∀ t i, ¬Denotes s len t i) (hnames : IsShallow names) :
    mjsonFind s len (pathOf names) = .none := by
  cases hnames with
  | one _ => exact mjsonFind_none h _
  | two _ _ => exact mjsonFind_none h _

/-- Either both texts have the same tree, or neither has one. -/
theorem denotes_congr (hs : s.take len = s'.take len) :
    (∃ t i, Denotes s len t i ∧ Denotes s' len t i) ∨
      (∀ t i, ¬Denotes s len t i) ∧ ∀ t i, ¬Denotes s' len t i := by
  by_cases h : ∃ t i, Denotes s len t i
  · obtain ⟨t, i, h⟩ := h
    exact .inl ⟨t, i, h, h.congr hs⟩
  · push Not at h
    exact .inr ⟨h, fun t i h' => h t i (h'.congr hs.symm)⟩

variable (hs : s.take len = s'.take len) (hnames : IsShallow names)

include hs hnames

theorem mjsonFind_congr : mjsonFind s len (pathOf names) = mjsonFind s' len (pathOf names) := by
  rcases denotes_congr hs with ⟨t, i, h, h'⟩ | ⟨h, h'⟩
  · rw [(h.mjsonFind_lookup hnames).1, (h'.mjsonFind_lookup hnames).1]
  · rw [mjsonFind_shallow_none h hnames, mjsonFind_shallow_none h' hnames]

/-- The text of what is found. -/
theorem found_text_congr {f : Found} (hf : mjsonFind s len (pathOf names) = f) :
    (s.drop f.off).take f.len = (s'.drop f.off).take f.len := by
  rcases denotes_congr hs with ⟨t, i, h, h'⟩ | ⟨h, -⟩
  · obtain ⟨hfind, hmember⟩ := h.mjsonFind_lookup hnames
    obtain ⟨-, hmember'⟩ := h'.mjsonFind_lookup hnames
    rw [hfind] at hf
    subst hf
    cases hu : Located.lookup ⟨i, t⟩ names with
    | none => rfl
    | some u =>
        obtain ⟨r, hr⟩ := (hmember u hu).inText.text
        obtain ⟨r', hr'⟩ := (hmember' u hu).inText.text
        simp only [Found.of]
        rw [← hr, ← hr', List.take_left, List.take_left]
  · rw [mjsonFind_shallow_none h hnames] at hf
    subst hf
    rfl

theorem mjsonGetNumber_congr :
    mjsonGetNumber s len (pathOf names) = mjsonGetNumber s' len (pathOf names) := by
  rcases denotes_congr hs with ⟨t, i, h, h'⟩ | ⟨h, h'⟩
  · obtain ⟨hfind, hmember⟩ := h.mjsonFind_lookup hnames
    obtain ⟨hfind', hmember'⟩ := h'.mjsonFind_lookup hnames
    rw [mjsonGetNumber_of hfind hmember, mjsonGetNumber_of hfind' hmember']
  · rw [mjsonGetNumber, mjsonGetNumber, mjsonFind_shallow_none h hnames,
      mjsonFind_shallow_none h' hnames]
    rfl

theorem mjsonGetBool_congr :
    mjsonGetBool s len (pathOf names) = mjsonGetBool s' len (pathOf names) := by
  rw [mjsonGetBool, mjsonGetBool, mjsonFind_congr hs hnames]

theorem mjsonGetString_congr (n : ℕ) :
    mjsonGetString s len (pathOf names) n = mjsonGetString s' len (pathOf names) n := by
  rcases denotes_congr hs with ⟨t, i, h, h'⟩ | ⟨h, h'⟩
  · obtain ⟨hfind, hmember⟩ := h.mjsonFind_lookup hnames
    obtain ⟨hfind', hmember'⟩ := h'.mjsonFind_lookup hnames
    rw [mjsonGetString_of hfind hmember, mjsonGetString_of hfind' hmember']
  · rw [mjsonGetString, mjsonGetString, mjsonFind_shallow_none h hnames,
      mjsonFind_shallow_none h' hnames]
    rfl

theorem parseJsonField_congr {S : Type} {field : JsonField S}
    (hpath : field.jsonPath = pathOf names) (o : S) :
    parseJsonField s len field o = parseJsonField s' len field o := by
  obtain ⟨path, out⟩ := field
  simp only at hpath
  subst hpath
  cases out with
  | string n get set => simp only [parseJsonField, mjsonGetString_congr hs hnames]
  | bool set => simp only [parseJsonField, mjsonGetBool_congr hs hnames]
  | int set => simp only [parseJsonField, mjsonGetNumber_congr hs hnames]
  | double set => simp only [parseJsonField, mjsonGetNumber_congr hs hnames]

end

section

variable {s s' : Bytes} {len : ℕ}

theorem parseJsonFields_congr {S : Type} (hs : s.take len = s'.take len)
    {fields : List (JsonField S)}
    (hfields : ∀ f ∈ fields, ∃ names, f.jsonPath = pathOf names ∧ IsShallow names) (o : S) :
    parseJsonFields s len fields o = parseJsonFields s' len fields o := by
  induction fields generalizing o with
  | nil => rfl
  | cons field fields ih =>
      obtain ⟨names, hpath, hnames⟩ := hfields field (by simp)
      simp only [parseJsonFields, parseJsonField_congr hs hnames hpath]
      cases parseJsonField s' len field o with
      | mk o' ok =>
          cases ok with
          | false => rfl
          | true => exact ih (fun f hf => hfields f (by simp [hf])) o'

theorem completionFields_names {field : JsonField CompletionOut} (h : field ∈ completionFields) :
    field.jsonPath = pathOf (pathNames field.jsonPath) ∧ IsShallow (pathNames field.jsonPath) := by
  obtain ⟨hpath, hnames, hlen⟩ := completionFields_paths h
  refine ⟨hpath, ?_⟩
  rcases hlen with ⟨n, hn⟩ | ⟨a, m, ham⟩
  · rw [hn] at hnames ⊢
    exact .one (hnames n (by simp))
  · rw [ham] at hnames ⊢
    exact .two (hnames a (by simp)) (hnames m (by simp))

theorem path_method : ascii "$.method" = pathOf [ascii "method"] := by decide

theorem methodIs_congr (hs : s.take len = s'.take len) (name : Bytes) :
    methodIs s len name ↔ methodIs s' len name := by
  have hnames : IsShallow [ascii "method"] := .one (by decide)
  have hfind := mjsonFind_congr hs hnames
  have htext := found_text_congr hs hnames rfl
  simp only [methodIs, path_method]
  rw [htext, hfind]

/-- The parsers of the answers, up to the contents of the buffer they decode into. -/
theorem parseRespResult_congr (hs : s.take len = s'.take len) (expectedCmdId : ℤ) {n : ℕ}
    (out : CharArray n) :
    parseRespResult s len expectedCmdId out = parseRespResult s' len expectedCmdId out := by
  have hnames : IsShallow [ascii "result"] := .one (by decide)
  have hresult := mjsonGetString_congr hs hnames n
  rw [← path_result] at hresult
  simp only [parseRespResult, parseId_congr hs, hresult]

theorem checkResponseOk_congr (hs : s.take len = s'.take len) (expectedCmdId : ℤ) :
    checkResponseOk s len expectedCmdId = checkResponseOk s' len expectedCmdId := by
  have herror : IsShallow [ascii "error"] := .one (by decide)
  have hresult : IsShallow [ascii "result"] := .one (by decide)
  have hfind := mjsonFind_congr hs herror
  have hbool := mjsonGetBool_congr hs hresult
  rw [← path_error] at hfind
  rw [← path_result] at hbool
  simp only [checkResponseOk, parseId_congr hs, hfind, hbool]

theorem parseGetStatus_congr (hs : s.take len = s'.take len) (expectedCmdId : ℤ) :
    parseGetStatus s len expectedCmdId = parseGetStatus s' len expectedCmdId := by
  simp only [parseGetStatus, parseRespResult_congr hs]

/-- **Locality.** Two memories that hold the same message. -/
theorem parseTransactionComplete_congr (hs : s.take len = s'.take len) (strStatus : CharArray 32)
    (pmtResp : PaymentResponse) :
    parseTransactionComplete s len strStatus pmtResp =
      parseTransactionComplete s' len strStatus pmtResp := by
  have hnames : IsShallow [ascii "params"] := .one (by decide)
  have hfind := mjsonFind_congr hs hnames
  have htext := found_text_congr hs hnames rfl
  rw [← path_params] at hfind htext
  rw [hfind] at htext
  have hfields := fun o => parseJsonFields_congr htext
    (fun f hf => ⟨_, completionFields_names hf⟩) o
  simp only [parseTransactionComplete, parseId_congr hs, methodIs_congr hs, hfind, hfields]

end

/-! ### What was there before -/

theorem cString_append_nul (xs ys : Bytes) : cString (xs ++ nul :: ys) = cString xs := by
  induction xs with
  | nil => rfl
  | cons c xs ih =>
      rw [cString, cString, List.cons_append]
      by_cases hc : c = nul
      · subst hc
        rfl
      · rw [List.takeWhile_cons_of_pos (by simpa using hc),
          List.takeWhile_cons_of_pos (by simpa using hc)]
        exact congrArg (c :: ·) ih

/-- A terminator hides what is behind it. -/
theorem CharArray.str_terminate {n : ℕ} (a : CharArray n) {w : Bytes} {l : ℕ} (hl : l ≤ w.length)
    (hn : l < n) : ((a.write w).terminate l).str = cString (w.take l) := by
  have hsize : l < ((w ++ a.bytes.drop w.length).take n).length := by
    rw [List.length_take, List.length_append, List.length_drop, a.size]
    omega
  have htake : ((w ++ a.bytes.drop w.length).take n).take l = w.take l := by
    rw [List.take_take, Nat.min_eq_left hn.le, List.take_append_of_le_length hl]
  simp only [CharArray.str, CharArray.terminate, CharArray.write]
  rw [List.set_eq_take_append_cons_drop, if_pos hsize, htake, cString_append_nul]

theorem mjsonGetString_length {s : Bytes} {len : ℕ} {path : Bytes} {n : ℕ} {w : Bytes} {l : ℕ}
    (h : mjsonGetString s len path n = (w, some l)) : l ≤ w.length ∧ l ≤ n - 1 := by
  by_cases htok : (mjsonFind s len path).tok = .string
  · simp only [mjsonGetString, htok, ne_eq, not_true_eq_false, if_false] at h
    obtain ⟨v, rfl, rfl, -, hlt⟩ := mjsonUnescape_some h
    rw [List.length_append]
    omega
  · simp only [mjsonGetString, htok, ne_eq, not_false_eq_true, if_true] at h
    cases h
    exact ⟨le_rfl, Nat.zero_le _⟩

def statusField : JsonField CompletionOut :=
  ⟨ascii "$.status", .string 32 (·.strStatus) fun o a => { o with strStatus := a }⟩

theorem statusField_eq (json : Bytes) (len : ℕ) (pmtResp : PaymentResponse) :
    ∃ str : Option Bytes, ∀ strStatus, ∃ a : CharArray 32,
      parseJsonField json len statusField ⟨strStatus, pmtResp⟩ = (⟨a, pmtResp⟩, str.isSome) ∧
        ∀ w, str = some w → a.str = w := by
  cases hget : mjsonGetString json len (ascii "$.status") 31 with
  | mk w l =>
      cases l with
      | none =>
          refine ⟨none, fun strStatus => ⟨strStatus.write w, ?_, nofun⟩⟩
          simp only [parseJsonField, statusField, hget]
          rfl
      | some l =>
          obtain ⟨hl, hn⟩ := mjsonGetString_length hget
          refine ⟨some (cString (w.take l)),
            fun strStatus => ⟨(strStatus.write w).terminate l, ?_, ?_⟩⟩
          · simp only [parseJsonField, statusField, hget]
            rfl
          · rintro _ ⟨⟩
            exact CharArray.str_terminate strStatus hl (by omega)

/-- A field of the response leaves the status alone, and does not look at it. -/
def OnResponse (field : JsonField CompletionOut) : Prop :=
  ∀ json len pmtResp, ∃ pmtResp' ok, ∀ strStatus,
    parseJsonField json len field ⟨strStatus, pmtResp⟩ = (⟨strStatus, pmtResp'⟩, ok)

theorem onResponse_string (path : Bytes) {n : ℕ} (get : PaymentResponse → CharArray n)
    (set : PaymentResponse → CharArray n → PaymentResponse) :
    OnResponse ⟨path, responseString get set⟩ := by
  intro json len pmtResp
  simp only [parseJsonField, responseString]
  cases mjsonGetString json len path (n - 1) with
  | mk w l =>
      cases l with
      | none => exact ⟨_, _, fun strStatus => rfl⟩
      | some l => exact ⟨_, _, fun strStatus => rfl⟩

theorem onResponse_int (path : Bytes) (set : PaymentResponse → ℤ → PaymentResponse) :
    OnResponse ⟨path, .int fun o v => { o with pmtResp := set o.pmtResp v }⟩ := by
  intro json len pmtResp
  simp only [parseJsonField]
  cases mjsonGetNumber json len path with
  | none => exact ⟨_, _, fun strStatus => rfl⟩
  | some dv =>
      simp only
      split_ifs
      · exact ⟨_, _, fun strStatus => rfl⟩
      · exact ⟨_, _, fun strStatus => rfl⟩

theorem onResponse_double (path : Bytes) (set : PaymentResponse → Double → PaymentResponse) :
    OnResponse ⟨path, .double fun o v => { o with pmtResp := set o.pmtResp v }⟩ := by
  intro json len pmtResp
  simp only [parseJsonField]
  cases mjsonGetNumber json len path with
  | none => exact ⟨_, _, fun strStatus => rfl⟩
  | some dv => exact ⟨_, _, fun strStatus => rfl⟩

theorem parseJsonFields_onResponse {fields : List (JsonField CompletionOut)}
    (hfields : ∀ f ∈ fields, OnResponse f) (json : Bytes) (len : ℕ) (pmtResp : PaymentResponse) :
    ∃ pmtResp' ok, ∀ strStatus,
      parseJsonFields json len fields ⟨strStatus, pmtResp⟩ = (⟨strStatus, pmtResp'⟩, ok) := by
  induction fields generalizing pmtResp with
  | nil => exact ⟨pmtResp, true, fun _ => rfl⟩
  | cons field fields ih =>
      obtain ⟨pmtResp₁, ok, hfield⟩ := hfields field (by simp) json len pmtResp
      simp only [parseJsonFields, hfield]
      cases ok with
      | false => exact ⟨pmtResp₁, false, fun _ => rfl⟩
      | true => exact ih (fun f hf => hfields f (by simp [hf])) pmtResp₁

theorem completionFields_eq : ∃ fields, completionFields = statusField :: fields ∧
    ∀ f ∈ fields, OnResponse f := by
  refine ⟨_, rfl, ?_⟩
  intro f hf
  simp only [List.mem_cons, List.not_mem_nil, or_false] at hf
  rcases hf with rfl | rfl | rfl | rfl | rfl | rfl | rfl | rfl | rfl
  · exact onResponse_string _ _ _
  · exact onResponse_int _ fun r v => { r with errorCode := v }
  · exact onResponse_double _ fun r v => { r with amountAuthorized := v }
  · exact onResponse_double _ fun r v => { r with amountRequested := v }
  · exact onResponse_string _ _ _
  · exact onResponse_string _ _ _
  · exact onResponse_string _ _ _
  · exact onResponse_string _ _ _
  · exact onResponse_string _ _ _

def CompletionResult.accepted (r : CompletionResult) : Option (ℤ × PaymentResponse) :=
  if r.ret = .ok then r.id.map fun id => (id, r.pmtResp) else none

theorem parseTransactionComplete_id (json : Bytes) (len : ℕ) (strStatus : CharArray 32)
    (pmtResp : PaymentResponse) :
    (parseTransactionComplete json len strStatus pmtResp).id = parseId json len := by
  rw [parseTransactionComplete]
  cases parseId json len with
  | none => rfl
  | some id =>
      simp only
      split_ifs with hmethod hparams
      · rfl
      · split
        · rfl
        · split
          · rfl
          · rfl
      · rfl

/-- What is accepted was read with its id. -/
theorem parseId_of_accepted {json : Bytes} {len : ℕ} {strStatus : CharArray 32}
    {pmtResp resp : PaymentResponse} {evtId : ℤ}
    (h : (parseTransactionComplete json len strStatus pmtResp).accepted = some (evtId, resp)) :
    parseId json len = some evtId := by
  rw [CompletionResult.accepted, parseTransactionComplete_id] at h
  split_ifs at h with hret
  obtain ⟨id, hid, heq⟩ := Option.map_eq_some_iff.mp h
  rw [hid, (Prod.mk.inj heq).1]

/-- What the local array for the status held before does not matter. -/
theorem parseTransactionComplete_strStatus (json : Bytes) (len : ℕ)
    (strStatus strStatus' : CharArray 32) (pmtResp : PaymentResponse) :
    parseTransactionComplete json len strStatus pmtResp =
      parseTransactionComplete json len strStatus' pmtResp := by
  simp only [parseTransactionComplete]
  cases parseId json len with
  | none => rfl
  | some id =>
      simp only
      split_ifs with hmethod hparams
      · rfl
      · obtain ⟨fields, hcompletion, hfields⟩ := completionFields_eq
        generalize json.drop (mjsonFind json len (ascii "$.params")).off = s
        generalize (mjsonFind json len (ascii "$.params")).len = n
        obtain ⟨str, hstatus⟩ := statusField_eq s n .zero
        obtain ⟨a, ha, hstr⟩ := hstatus strStatus
        obtain ⟨a', ha', hstr'⟩ := hstatus strStatus'
        obtain ⟨out, ok, hrest⟩ := parseJsonFields_onResponse hfields s n .zero
        rw [hcompletion]
        simp only [parseJsonFields, ha, ha']
        cases str with
        | none => rfl
        | some w =>
            simp only [Option.isSome_some, hrest]
            cases ok with
            | false => rfl
            | true =>
                simp only [hstr w rfl, hstr' w rfl]
      · rfl

/-- What is accepted, and as what, does not depend on the memory written before. -/
theorem parseTransactionComplete_fresh (json : Bytes) (len : ℕ) (strStatus strStatus' : CharArray 32)
    (pmtResp pmtResp' : PaymentResponse) :
    (parseTransactionComplete json len strStatus pmtResp).accepted =
      (parseTransactionComplete json len strStatus' pmtResp').accepted := by
  rw [parseTransactionComplete_strStatus json len strStatus strStatus']
  simp only [parseTransactionComplete]
  cases parseId json len with
  | none => rfl
  | some id => rfl

def acceptedCompletion (msg : Bytes) : Option (ℤ × PaymentResponse) :=
  (parseTransactionComplete msg msg.length (.zero 32) .zero).accepted

/-- A message is accepted in the same way wherever it lies in memory, and at any time. -/
theorem parseTransactionComplete_accepted {s msg : Bytes} (hs : msg <+: s) (strStatus : CharArray 32)
    (pmtResp : PaymentResponse) :
    (parseTransactionComplete s msg.length strStatus pmtResp).accepted = acceptedCompletion msg := by
  have htake : s.take msg.length = msg.take msg.length := by
    rw [List.take_length]
    exact (List.prefix_iff_eq_take.mp hs).symm
  rw [parseTransactionComplete_congr htake]
  exact parseTransactionComplete_fresh _ _ _ _ _ _

end OtiKiosk
