import OtiKiosk.Commands.Locality

/-!
Where the parser of completion events writes. Its string fields are decoded by a
loop with an index into the text and one into the array, which stops one byte
before the last of the array; the caller then writes a terminator at the length
that the loop returns. So the last byte of an array stays as it was cleared.
-/

namespace OtiKiosk

open Ascii Json

/-! ### The loop with its indexes -/

/-- A byte is written at this index of an array, whatever its size. -/
structure Store where
  index : ℕ
  byte : UInt8

def Store.cons (st : Store) (r : List Store × Option ℕ) : List Store × Option ℕ := (st :: r.1, r.2)

/-- `mjson_unescape` from the indexes `i` and `j` on: what it writes to the `n` bytes at `to`, in
this order, and what it returns. -/
def unescapeFrom (s : Bytes) (n i j : ℕ) : List Store × Option ℕ :=
  if i < s.length ∧ j < n then
    if s.getD i nul = backslash ∧ i + 1 < s.length then
      match mjsonEsc (s.getD (i + 1) nul) with
      | none => ([], none)
      | some c => Store.cons ⟨j, c⟩ (unescapeFrom s n (i + 2) (j + 1))
    else Store.cons ⟨j, s.getD i nul⟩ (unescapeFrom s n (i + 1) (j + 1))
  else if n ≤ j then ([], none)
  else ([⟨j, nul⟩], some j)
termination_by s.length - i

theorem Store.cons_lt {st : Store} {r : List Store × Option ℕ} {n : ℕ} (hst : st.index < n)
    (h : (∀ st ∈ r.1, st.index < n) ∧ ∀ l, r.2 = some l → l < n) :
    (∀ st' ∈ (Store.cons st r).1, st'.index < n) ∧ ∀ l, (Store.cons st r).2 = some l → l < n := by
  refine ⟨?_, h.2⟩
  intro st' hst'
  rcases List.mem_cons.mp hst' with rfl | hst'
  · exact hst
  · exact h.1 st' hst'

/-- The index into the array stays below its bound, whatever the other one does. -/
theorem unescapeFrom_lt (s : Bytes) (n i j : ℕ) :
    (∀ st ∈ (unescapeFrom s n i j).1, st.index < n) ∧
      ∀ l, (unescapeFrom s n i j).2 = some l → l < n := by
  induction i, j using unescapeFrom.induct s n with
  | case1 i j hlt hback hesc =>
      rw [unescapeFrom, if_pos hlt, if_pos hback, hesc]
      exact ⟨fun st hst => absurd hst List.not_mem_nil, fun l hl => by cases hl⟩
  | case2 i j hlt hback c hesc ih =>
      rw [unescapeFrom, if_pos hlt, if_pos hback, hesc]
      exact Store.cons_lt hlt.2 ih
  | case3 i j hlt hback ih =>
      rw [unescapeFrom, if_pos hlt, if_neg hback]
      exact Store.cons_lt hlt.2 ih
  | case4 i j hlt hfull =>
      rw [unescapeFrom, if_neg hlt, if_pos hfull]
      exact ⟨fun st hst => absurd hst List.not_mem_nil, fun l hl => by cases hl⟩
  | case5 i j hlt hfull =>
      rw [unescapeFrom, if_neg hlt, if_neg hfull]
      refine ⟨fun st hst => ?_, fun l hl => ?_⟩
      · obtain rfl := List.mem_singleton.mp hst
        exact not_le.mp hfull
      · obtain rfl := Option.some.inj hl
        exact not_le.mp hfull

def storesAt : ℕ → Bytes → List Store
  | _, [] => []
  | j, b :: w => ⟨j, b⟩ :: storesAt (j + 1) w

/-- What the loop does, in terms of the text that is left and the room that is left. -/
def loopStores (j : ℕ) (r : Bytes × Bool) : List Store × Option ℕ :=
  if r.2 then (storesAt j (r.1 ++ [nul]), some (j + r.1.length)) else (storesAt j r.1, none)

theorem loopStores_cons (j : ℕ) (b : UInt8) (r : Bytes × Bool) :
    Store.cons ⟨j, b⟩ (loopStores (j + 1) r) = loopStores j (b :: r.1, r.2) := by
  obtain ⟨w, ok⟩ := r
  cases ok with
  | false => rfl
  | true =>
      have hlen : j + 1 + w.length = j + (w.length + 1) := by omega
      simp only [loopStores, Store.cons, if_true, List.cons_append, storesAt, List.length_cons, hlen]

theorem drop_getD {s : Bytes} {i : ℕ} (h : i < s.length) :
    s.drop i = s.getD i nul :: s.drop (i + 1) := by
  rw [List.drop_eq_getElem_cons h, List.getD_eq_getElem _ _ h]

/-- The loop with its indexes does what the loop along the text does. -/
theorem unescapeFrom_eq (s : Bytes) (n i j : ℕ) :
    unescapeFrom s n i j = loopStores j (mjsonUnescapeLoop (s.drop i) (n - j)) := by
  -- the text that is left starts at `i`, and there is room for `n - j` bytes more
  induction i, j using unescapeFrom.induct s n with
  | case1 i j hlt hback hesc =>
      obtain ⟨k, hk⟩ := Nat.exists_eq_add_of_lt hlt.2
      have hroom : n - j = k + 1 := by omega
      rw [unescapeFrom, if_pos hlt, if_pos hback, hesc, drop_getD hlt.1, drop_getD hback.2, hroom,
        hback.1]
      simp only [mjsonUnescapeLoop, if_true, hesc]
      rfl
  | case2 i j hlt hback c hesc ih =>
      obtain ⟨k, hk⟩ := Nat.exists_eq_add_of_lt hlt.2
      have hroom : n - j = k + 1 := by omega
      have hroom' : n - (j + 1) = k := by omega
      rw [unescapeFrom, if_pos hlt, if_pos hback, hesc, drop_getD hlt.1, drop_getD hback.2, hroom,
        hback.1, ih, hroom']
      simp only [mjsonUnescapeLoop, if_true, hesc, loopStores_cons]
  | case3 i j hlt hback ih =>
      obtain ⟨k, hk⟩ := Nat.exists_eq_add_of_lt hlt.2
      have hroom : n - j = k + 1 := by omega
      have hroom' : n - (j + 1) = k := by omega
      rw [unescapeFrom, if_pos hlt, if_neg hback, drop_getD hlt.1, hroom, ih, hroom',
        loopStores_cons]
      by_cases hlast : i + 1 < s.length
      · have hc : s.getD i nul ≠ backslash := fun hc => hback ⟨hc, hlast⟩
        rw [drop_getD hlast]
        simp only [mjsonUnescapeLoop, hc, if_false]
      · -- a backslash at the very end stands for itself
        rw [List.drop_of_length_le (not_lt.mp hlast)]
        simp only [mjsonUnescapeLoop]
  | case4 i j hlt hfull =>
      have hroom : n - j = 0 := by omega
      rw [unescapeFrom, if_neg hlt, if_pos hfull, hroom]
      cases s.drop i with
      | nil => rfl
      | cons c s => rfl
  | case5 i j hlt hfull =>
      have hroom : 0 < n - j := by omega
      have hend : s.length ≤ i := by
        by_contra hi
        exact hlt ⟨not_le.mp hi, not_le.mp hfull⟩
      rw [unescapeFrom, if_neg hlt, if_neg hfull, List.drop_of_length_le hend]
      simp [mjsonUnescapeLoop, loopStores, storesAt, hroom]

theorem mjsonUnescapeLoop_length (s : Bytes) (n : ℕ) : (mjsonUnescapeLoop s n).1.length ≤ n := by
  induction s, n using mjsonUnescapeLoop.induct with
  | case1 n => exact Nat.zero_le n
  | case2 c s => exact le_rfl
  | case3 c n => exact Nat.le_add_left 1 n
  | case4 c' s n hesc =>
      simp only [mjsonUnescapeLoop, if_true, hesc]
      exact Nat.zero_le _
  | case5 c' s n b hesc w ok hloop ih =>
      simp only [mjsonUnescapeLoop, if_true, hesc, List.length_cons]
      exact Nat.succ_le_succ ih
  | case6 c c' s n hc w ok hloop ih =>
      simp only [mjsonUnescapeLoop, hc, if_false, List.length_cons]
      exact Nat.succ_le_succ ih

/-! ### Arrays -/

namespace CharArray

variable {n : ℕ}

theorem ext_bytes {a b : CharArray n} (h : a.bytes = b.bytes) : a = b := by
  obtain ⟨bytes, hsize⟩ := a
  obtain rfl : bytes = b.bytes := h
  rfl

/-- A byte outside of the array changes something else, and here nothing. -/
def store (a : CharArray n) (st : Store) : CharArray n where
  bytes := a.bytes.set st.index st.byte
  size := by simp [a.size]

theorem foldl_store (a : CharArray n) {j : ℕ} {w : Bytes} (hw : j + w.length ≤ n) :
    ((storesAt j w).foldl store a).bytes = a.bytes.take j ++ (w ++ a.bytes.drop (j + w.length)) := by
  induction w generalizing a j with
  | nil => simp [storesAt]
  | cons b w ih =>
      rw [List.length_cons] at hw
      have hj : j < a.bytes.length := by
        rw [a.size]
        omega
      have hlen : (a.bytes.take j).length = j := by
        rw [List.length_take]
        omega
      have htake : (a.store ⟨j, b⟩).bytes.take (j + 1) = a.bytes.take j ++ [b] := by
        show (a.bytes.set j b).take (j + 1) = _
        rw [List.set_eq_take_append_cons_drop, if_pos hj, List.take_append, hlen,
          List.take_of_length_le (by omega), Nat.add_sub_cancel_left]
        rfl
      have hdrop : (a.store ⟨j, b⟩).bytes.drop (j + 1 + w.length) =
          a.bytes.drop (j + (w.length + 1)) := by
        show (a.bytes.set j b).drop (j + 1 + w.length) = _
        rw [List.drop_set_of_lt (by omega), Nat.add_assoc, Nat.add_comm 1]
      rw [storesAt, List.foldl_cons, ih (a.store ⟨j, b⟩) (by omega), htake, hdrop,
        List.length_cons, List.append_assoc]
      rfl

/-- Bytes written from the start on. -/
theorem foldl_store_write (a : CharArray n) {w : Bytes} (hw : w.length ≤ n) :
    (storesAt 0 w).foldl store a = a.write w := by
  have hlen : (w ++ a.bytes.drop w.length).length = n := by
    rw [List.length_append, List.length_drop, a.size]
    omega
  apply ext_bytes
  rw [foldl_store a (by omega), List.take_zero, List.nil_append, Nat.zero_add]
  exact (List.take_of_length_le hlen.le).symm

end CharArray

/-! ### Fields -/

section

variable {S : Type}

/-- What one turn of `parse_json_fields` writes to the array of its field, if it has one, and
whether to go on. -/
def fieldStores (json : Bytes) (len : ℕ) (field : JsonField S) (s : S) : List Store × Bool :=
  match field.out with
  | .string n _ _ =>
      let f := mjsonFind json len field.jsonPath
      let (stores, ret) :=
        if f.tok ≠ .string then ([], some 0)
        else unescapeFrom ((json.drop (f.off + 1)).take (f.len - 2)) (n - 1) 0 0
      match ret with
      | none => (stores, false)
      | some l => (stores ++ [⟨l, nul⟩], true)
  | _ => ([], (parseJsonField json len field s).2)

def fieldsStores (json : Bytes) (len : ℕ) : List (JsonField S) → S → List (JsonField S × Store)
  | [], _ => []
  | field :: fields, s =>
      (fieldStores json len field s).1.map (fun st => (field, st)) ++
        match parseJsonField json len field s with
        | (_, false) => []
        | (s', true) => fieldsStores json len fields s'

/-- These are all the writes there are: the array is what they leave. -/
theorem parseJsonField_stores (json : Bytes) (len : ℕ) {path : Bytes} {n : ℕ} (hn : 1 ≤ n)
    (get : S → CharArray n) (set : S → CharArray n → S) (s : S) :
    parseJsonField json len ⟨path, .string n get set⟩ s =
      (set s ((fieldStores json len ⟨path, .string n get set⟩ s).1.foldl CharArray.store (get s)),
        (fieldStores json len ⟨path, .string n get set⟩ s).2) := by
  simp only [parseJsonField, mjsonGetString, fieldStores]
  by_cases htok : (mjsonFind json len path).tok = .string
  · simp only [htok, ne_eq, not_true_eq_false, if_false]
    generalize (json.drop ((mjsonFind json len path).off + 1)).take
      ((mjsonFind json len path).len - 2) = raw
    have hlen := mjsonUnescapeLoop_length raw (n - 1)
    rw [unescapeFrom_eq, List.drop_zero, Nat.sub_zero, mjsonUnescape]
    cases hloop : mjsonUnescapeLoop raw (n - 1) with
    | mk w ok =>
        rw [hloop] at hlen
        cases ok with
        | false =>
            simp only [loopStores, Bool.false_eq_true, if_false]
            have hw : w.length ≤ n - 1 := hlen
            rw [CharArray.foldl_store_write _ (by omega)]
        | true =>
            have hlt := ((mjsonUnescapeLoop_eq_iff raw w (n - 1)).mp hloop).2
            have hwrite := (get s).foldl_store_write (w := w ++ [nul])
              (by rw [List.length_append, List.length_singleton]; omega)
            simp only [loopStores, if_true, Nat.zero_add, List.foldl_append, List.foldl_cons,
              List.foldl_nil]
            rw [hwrite]
            rfl
  · simp only [htok, ne_eq, not_false_eq_true, if_true, CharArray.write_nil]
    rfl

/-- A byte that is written lies in the array, and is a terminator if it is the last. -/
def Store.Fits (n : ℕ) (st : Store) : Prop := st.index < n ∧ (st.index + 1 < n ∨ st.byte = nul)

theorem fieldStores_fit (json : Bytes) (len : ℕ) {path : Bytes} {n : ℕ} (hn : 1 ≤ n)
    (get : S → CharArray n) (set : S → CharArray n → S) (s : S) :
    ∀ st ∈ (fieldStores json len ⟨path, .string n get set⟩ s).1, st.Fits n := by
  simp only [fieldStores]
  by_cases htok : (mjsonFind json len path).tok = .string
  · simp only [htok, ne_eq, not_true_eq_false, if_false]
    obtain ⟨hstores, hret⟩ := unescapeFrom_lt ((json.drop ((mjsonFind json len path).off + 1)).take
      ((mjsonFind json len path).len - 2)) (n - 1) 0 0
    -- the loop is given one byte less than the array has
    have hfit : ∀ st : Store, st.index < n - 1 → st.Fits n := fun st hst =>
      ⟨by omega, .inl (by omega)⟩
    cases hloop : unescapeFrom ((json.drop ((mjsonFind json len path).off + 1)).take
        ((mjsonFind json len path).len - 2)) (n - 1) 0 0 with
    | mk stores ret =>
        rw [hloop] at hstores hret
        cases ret with
        | none => exact fun st hst => hfit st (hstores st hst)
        | some l =>
            have hl := hret l rfl
            intro st hst
            rcases List.mem_append.mp hst with hst | hst
            · exact hfit st (hstores st hst)
            · obtain rfl := List.mem_singleton.mp hst
              have hlt : l < n := by omega
              exact ⟨hlt, .inr rfl⟩
  · simp only [htok, ne_eq, not_false_eq_true, if_true, List.nil_append, List.mem_singleton]
    rintro st rfl
    exact ⟨hn, .inr rfl⟩

def JsonOut.HasArray : JsonOut S → Prop
  | .string n _ _ => 1 ≤ n
  | _ => True

def JsonOut.Holds : JsonOut S → Store → Prop
  | .string n _ _, st => st.index < n
  | _, _ => False

theorem fieldsStores_hold (json : Bytes) (len : ℕ) {fields : List (JsonField S)}
    (hfields : ∀ f ∈ fields, f.out.HasArray) (s : S) :
    ∀ w ∈ fieldsStores json len fields s, w.1 ∈ fields ∧ w.1.out.Holds w.2 := by
  induction fields generalizing s with
  | nil => exact fun w hw => absurd hw List.not_mem_nil
  | cons field fields ih =>
      intro w hw
      rcases List.mem_append.mp hw with hw | hw
      · obtain ⟨st, hst, rfl⟩ := List.mem_map.mp hw
        refine ⟨List.mem_cons_self, ?_⟩
        have hn := hfields field List.mem_cons_self
        obtain ⟨path, out⟩ := field
        cases out with
        | string n get set => exact (fieldStores_fit json len hn get set s st hst).1
        | bool set => cases hst
        | int set => cases hst
        | double set => cases hst
      · cases hfield : parseJsonField json len field s with
        | mk s' ok =>
            simp only [hfield] at hw
            cases ok with
            | false => cases hw
            | true =>
                obtain ⟨hmem, hholds⟩ := ih (fun f hf => hfields f (List.mem_cons_of_mem _ hf)) s' w hw
                exact ⟨List.mem_cons_of_mem _ hmem, hholds⟩

end

/-! ### Last bytes -/

/-- The last byte of the array is a terminator. -/
def CharArray.Closed {n : ℕ} (a : CharArray n) : Prop := a.bytes.getLast? = some nul

theorem CharArray.Closed.nul_mem {n : ℕ} {a : CharArray n} (h : a.Closed) : nul ∈ a.bytes :=
  List.mem_of_getLast? h

theorem CharArray.zero_closed {n : ℕ} (hn : 1 ≤ n) : (CharArray.zero n).Closed := by
  obtain ⟨n, rfl⟩ := Nat.exists_eq_add_of_le' hn
  show (List.replicate (n + 1) nul).getLast? = some nul
  rw [List.replicate_succ', List.getLast?_concat]

theorem CharArray.Closed.store {n : ℕ} {a : CharArray n} (h : a.Closed) {st : Store}
    (hst : st.Fits n) : (a.store st).Closed := by
  obtain ⟨hlt, hlast⟩ := hst
  show (a.bytes.set st.index st.byte).getLast? = some nul
  unfold CharArray.Closed at h
  rw [List.getLast?_eq_getElem?, a.size] at h
  rw [List.getLast?_eq_getElem?, List.length_set, a.size]
  by_cases hindex : st.index = n - 1
  · have hbyte : st.byte = nul := by
      rcases hlast with hlast | hbyte
      · omega
      · exact hbyte
    rw [hindex, List.getElem?_set_self (by rw [a.size]; omega), hbyte]
  · rw [List.getElem?_set_ne hindex]
    exact h

theorem CharArray.Closed.foldl_store {n : ℕ} {a : CharArray n} (h : a.Closed) {stores : List Store}
    (hstores : ∀ st ∈ stores, st.Fits n) : (stores.foldl CharArray.store a).Closed := by
  induction stores generalizing a with
  | nil => exact h
  | cons st stores ih =>
      exact ih (h.store (hstores st List.mem_cons_self))
        fun st' hst' => hstores st' (List.mem_cons_of_mem _ hst')

/-- The string arrays of a response, with their terminators in place. -/
structure PaymentResponse.Closed (r : PaymentResponse) : Prop where
  errorMessage : r.errorMessage.Closed
  transactionReference : r.transactionReference.Closed
  partialPan : r.partialPan.Closed
  cardType : r.cardType.Closed
  cardId : r.cardId.Closed
  cardToken : r.cardToken.Closed

theorem PaymentResponse.zero_closed : PaymentResponse.zero.Closed :=
  ⟨CharArray.zero_closed (by decide), CharArray.zero_closed (by decide),
    CharArray.zero_closed (by decide), CharArray.zero_closed (by decide),
    CharArray.zero_closed (by decide), CharArray.zero_closed (by decide)⟩

def KeepsClosed (field : JsonField CompletionOut) : Prop :=
  ∀ json len out, out.pmtResp.Closed → (parseJsonField json len field out).1.pmtResp.Closed

theorem keepsClosed_string {n : ℕ} (hn : 1 ≤ n) (path : Bytes)
    {get : CompletionOut → CharArray n} {set : CompletionOut → CharArray n → CompletionOut}
    (hset : ∀ (out : CompletionOut) (stores : List Store), out.pmtResp.Closed →
      (∀ st ∈ stores, st.Fits n) →
      (set out (stores.foldl CharArray.store (get out))).pmtResp.Closed) :
    KeepsClosed ⟨path, .string n get set⟩ := by
  intro json len out hout
  rw [parseJsonField_stores json len hn]
  exact hset out _ hout (fieldStores_fit json len hn get set out)

theorem keepsClosed_int (path : Bytes) {set : CompletionOut → ℤ → CompletionOut}
    (hset : ∀ (out : CompletionOut) v, out.pmtResp.Closed → (set out v).pmtResp.Closed) :
    KeepsClosed ⟨path, .int set⟩ := by
  intro json len out hout
  rw [parseJsonField]
  cases mjsonGetNumber json len path with
  | none => exact hout
  | some dv =>
      by_cases hint : dv.IsInt
      · simp only [if_pos hint]
        exact hset out _ hout
      · simp only [if_neg hint]
        exact hout

theorem keepsClosed_double (path : Bytes) {set : CompletionOut → Double → CompletionOut}
    (hset : ∀ (out : CompletionOut) v, out.pmtResp.Closed → (set out v).pmtResp.Closed) :
    KeepsClosed ⟨path, .double set⟩ := by
  intro json len out hout
  rw [parseJsonField]
  cases mjsonGetNumber json len path with
  | none => exact hout
  | some dv => exact hset out dv hout

theorem completionFields_keepClosed : ∀ f ∈ completionFields, KeepsClosed f := by
  intro f hf
  simp only [completionFields, List.mem_cons, List.not_mem_nil, or_false] at hf
  rcases hf with rfl | rfl | rfl | rfl | rfl | rfl | rfl | rfl | rfl | rfl
  · exact keepsClosed_string (by decide) _ fun _ _ h _ => h
  · exact keepsClosed_string (by decide) _ fun _ _ h hs =>
      { h with errorMessage := h.errorMessage.foldl_store hs }
  · exact keepsClosed_int _ fun _ _ h => { h with }
  · exact keepsClosed_double _ fun _ _ h => { h with }
  · exact keepsClosed_double _ fun _ _ h => { h with }
  · exact keepsClosed_string (by decide) _ fun _ _ h hs =>
      { h with transactionReference := h.transactionReference.foldl_store hs }
  · exact keepsClosed_string (by decide) _ fun _ _ h hs =>
      { h with partialPan := h.partialPan.foldl_store hs }
  · exact keepsClosed_string (by decide) _ fun _ _ h hs =>
      { h with cardType := h.cardType.foldl_store hs }
  · exact keepsClosed_string (by decide) _ fun _ _ h hs =>
      { h with cardId := h.cardId.foldl_store hs }
  · exact keepsClosed_string (by decide) _ fun _ _ h hs =>
      { h with cardToken := h.cardToken.foldl_store hs }

theorem parseJsonFields_closed {fields : List (JsonField CompletionOut)}
    (hfields : ∀ f ∈ fields, KeepsClosed f) (json : Bytes) (len : ℕ) {out : CompletionOut}
    (hout : out.pmtResp.Closed) : (parseJsonFields json len fields out).1.pmtResp.Closed := by
  induction fields generalizing out with
  | nil => exact hout
  | cons field fields ih =>
      have hfield := hfields field List.mem_cons_self json len out hout
      rw [parseJsonFields]
      cases hparse : parseJsonField json len field out with
      | mk out' ok =>
          rw [hparse] at hfield
          cases ok with
          | false => exact hfield
          | true => exact ih (fun f hf => hfields f (List.mem_cons_of_mem _ hf)) hfield

/-! ### Completion events -/

/-- The bytes that `parse_transaction_complete` writes while it decodes the string fields, each with
its field. -/
def completionStores (json : Bytes) (len : ℕ) (strStatus : CharArray 32) :
    List (JsonField CompletionOut × Store) :=
  match parseId json len with
  | none => []
  | some _ =>
      if ¬methodIs json len (ascii "TransactionComplete") then []
      else
        let params := mjsonFind json len (ascii "$.params")
        if params.tok ≠ .object then []
        else fieldsStores (json.drop params.off) params.len completionFields ⟨strStatus, .zero⟩

theorem completionFields_arrays : ∀ f ∈ completionFields, f.out.HasArray := by
  have h32 : 1 ≤ 32 := by decide
  have h100 : 1 ≤ 100 := by decide
  have h128 : 1 ≤ 128 := by decide
  have h20 : 1 ≤ 20 := by decide
  simp only [completionFields, List.forall_mem_cons]
  exact ⟨h32, h100, trivial, trivial, trivial, h128, h20, h32, h32, h128,
    fun f hf => absurd hf List.not_mem_nil⟩

/-- After the id was read, the response is one that was cleared first. -/
theorem parseTransactionComplete_closed {json : Bytes} {len : ℕ} {id : ℤ}
    (hid : parseId json len = some id) (strStatus : CharArray 32) (pmtResp : PaymentResponse) :
    (parseTransactionComplete json len strStatus pmtResp).pmtResp.Closed := by
  simp only [parseTransactionComplete, hid]
  split_ifs with hmethod hparams
  · exact PaymentResponse.zero_closed
  · generalize json.drop (mjsonFind json len (ascii "$.params")).off = s
    generalize (mjsonFind json len (ascii "$.params")).len = n
    have hfields : (parseJsonFields s n completionFields ⟨strStatus, .zero⟩).1.pmtResp.Closed :=
      parseJsonFields_closed completionFields_keepClosed s n PaymentResponse.zero_closed
    cases hparse : parseJsonFields s n completionFields ⟨strStatus, .zero⟩ with
    | mk out ok =>
        rw [hparse] at hfields
        cases ok with
        | false => exact hfields
        | true =>
            simp only
            cases transactionStatusTexts.lookup out.strStatus.str with
            | none => exact hfields
            | some status => exact { hfields with }
  · exact PaymentResponse.zero_closed

/-- **Bounds.** Every byte that is written while a completion event is decoded lies in the array of
its field, and after the id was read all string arrays of the response are terminated. -/
theorem completion_in_bounds (json : Bytes) (len : ℕ) (strStatus : CharArray 32)
    (pmtResp : PaymentResponse) :
    (∀ w ∈ completionStores json len strStatus,
        w.1 ∈ completionFields ∧ w.1.out.Holds w.2) ∧
      ((parseId json len).isSome →
        nul ∈ (parseTransactionComplete json len strStatus pmtResp).pmtResp.errorMessage.bytes ∧
        nul ∈ (parseTransactionComplete json len strStatus pmtResp).pmtResp.transactionReference.bytes ∧
        nul ∈ (parseTransactionComplete json len strStatus pmtResp).pmtResp.partialPan.bytes ∧
        nul ∈ (parseTransactionComplete json len strStatus pmtResp).pmtResp.cardType.bytes ∧
        nul ∈ (parseTransactionComplete json len strStatus pmtResp).pmtResp.cardId.bytes ∧
        nul ∈ (parseTransactionComplete json len strStatus pmtResp).pmtResp.cardToken.bytes) := by
  constructor
  · rw [completionStores]
    cases parseId json len with
    | none => exact fun w hw => absurd hw List.not_mem_nil
    | some id =>
        simp only
        split_ifs with hmethod hparams
        · exact fun w hw => absurd hw List.not_mem_nil
        · exact fieldsStores_hold _ _ completionFields_arrays _
        · exact fun w hw => absurd hw List.not_mem_nil
  · intro hsome
    obtain ⟨id, hid⟩ := Option.isSome_iff_exists.mp hsome
    have hclosed := parseTransactionComplete_closed hid strStatus pmtResp
    exact ⟨hclosed.errorMessage.nul_mem, hclosed.transactionReference.nul_mem,
      hclosed.partialPan.nul_mem, hclosed.cardType.nul_mem, hclosed.cardId.nul_mem,
      hclosed.cardToken.nul_mem⟩

def longDescription : Bytes :=
  (object [(ascii "method", .string (ascii "TransactionComplete")), (ascii "id", .number (ascii "77")),
    (ascii "params", object [(ascii "status", .string (ascii "OK")),
      (ascii "errorDescription", .string (List.replicate 120 65))])]).text

theorem longDescription_in_bounds :
    nul ∈ (parseTransactionComplete longDescription longDescription.length (.zero 32)
      .zero).pmtResp.errorMessage.bytes :=
  ((completion_in_bounds longDescription longDescription.length (.zero 32) .zero).2
    (by decide +kernel)).1

end OtiKiosk
