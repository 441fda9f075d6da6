import OtiKiosk.Commands.Locality

/-!
The answer to `CancelTransaction`. Its parser knows three results, and compares
the text it has decoded with the first of them only: what it passes for the other
two is not the literal but the outcome of comparing it with 0.
-/

namespace OtiKiosk

open Ascii Json

variable {json : Bytes} {len n : ℕ} {expectedCmdId : ℤ} {w : Bytes}

/-! ### What `parse_resp_result` leaves in its buffer -/

theorem parseRespResult_ok (out : CharArray n) (hid : parseId json len = some expectedCmdId)
    (htext : mjsonText json len (ascii "$.result") = some w) (hne : w ≠ []) (hlen : w.length < n) :
    parseRespResult json len expectedCmdId out = (.ok, out.write (w ++ [nul])) := by
  have hget := (mjsonGetString_eq_iff json len (ascii "$.result") w n).mpr ⟨htext, hlen⟩
  obtain ⟨c, w, rfl⟩ := List.exists_cons_of_ne_nil hne
  simp only [parseRespResult, hid, hget, ne_eq, not_true_eq_false, if_false, List.length_cons]

/-- The parser fails on any other answer. -/
theorem parseRespResult_fails (out : CharArray n)
    (h : parseId json len = some expectedCmdId →
      ∀ w, mjsonText json len (ascii "$.result") = some w → w = [] ∨ n ≤ w.length) :
    (parseRespResult json len expectedCmdId out).1 = .parsingError := by
  simp only [parseRespResult]
  cases hid : parseId json len with
  | none => rfl
  | some id =>
      by_cases hne : id ≠ expectedCmdId
      · simp only [if_pos hne]
      · obtain rfl := not_not.mp hne
        simp only [if_neg hne]
        cases hget : mjsonGetString json len (ascii "$.result") n with
        | mk written ret =>
            cases ret with
            | none => rfl
            | some l =>
                cases l with
                | zero => rfl
                | succ l =>
                    -- a text was decoded, and it is one that does not fit or is empty
                    have htok : (mjsonFind json len (ascii "$.result")).tok = .string := by
                      by_contra htok
                      simp [mjsonGetString, htok] at hget
                    have hunescape := hget
                    simp only [mjsonGetString, htok, ne_eq, not_true_eq_false, if_false] at hunescape
                    obtain ⟨v, rfl, hl, -, -⟩ := mjsonUnescape_some hunescape
                    rw [hl] at hget
                    obtain ⟨htext, hlt⟩ := (mjsonGetString_eq_iff _ _ _ _ _).mp hget
                    rcases h hid v htext with rfl | hle
                    · cases hl
                    · omega

/-- The string in the buffer. -/
theorem CharArray.str_write {a : CharArray n} (hnul : nul ∉ w) (hlen : w.length < n) :
    (a.write (w ++ [nul])).str = w := by
  have htake : ∀ rest : Bytes, (w ++ [nul] ++ rest).take n = w ++ nul :: rest.take (n - w.length - 1) := by
    intro rest
    rw [List.append_assoc, List.singleton_append, List.take_append, List.take_of_length_le hlen.le]
    obtain ⟨k, hk⟩ := Nat.exists_eq_add_of_lt hlen
    rw [show n - w.length = k + 1 by omega, List.take_succ_cons, Nat.add_sub_cancel]
  show cString ((w ++ [nul] ++ a.bytes.drop (w ++ [nul]).length).take n) = w
  rw [htake, cString_append_nul, cString, List.takeWhile_eq_self_iff]
  intro c hc
  have hne : c ≠ nul := by
    rintro rfl
    exact hnul hc
  simpa using hne

theorem mjsonText_noNul {names : List Bytes} (hnames : IsShallow names)
    (h : mjsonText json len (pathOf names) = some w) : nul ∉ w := by
  by_cases hdenotes : ∃ t i, Denotes json len t i
  · obtain ⟨t, i, ht⟩ := hdenotes
    obtain ⟨hfind, hmember⟩ := ht.mjsonFind_lookup hnames
    rw [mjsonText_of hfind hmember, Option.bind_eq_some_iff] at h
    obtain ⟨raw, hraw, hdecode⟩ := h
    rw [Option.bind_eq_some_iff] at hraw
    obtain ⟨v, hv, hstring⟩ := hraw
    have hwf := (hmember v hv).inText.wf
    obtain ⟨off, v⟩ := v
    cases v with
    | string raw' =>
        obtain rfl : raw' = raw := Option.some.inj hstring
        exact decode_noNul hdecode (lexicon_noNul hwf)
    | _ => cases hstring
  · push Not at hdenotes
    rw [mjsonText, mjsonFind_shallow_none hdenotes hnames] at h
    cases h

/-! ### The classification -/

def cancelClass (id : Option ℤ) (result : Option Bytes) (expectedCmdId : ℤ) : KioskRet :=
  if id ≠ some expectedCmdId then .parsingError
  else if result = some (ascii "Ok") ∨ result = some (ascii "NoTransaction") then .ok
  else if result = some (ascii "CannotCancel") then .negativeResp
  else .parsingError

theorem cancelClass_of_long (h : parseId json len = some expectedCmdId →
      ∀ w, mjsonText json len (ascii "$.result") = some w → w = [] ∨ 32 ≤ w.length) :
    cancelClass (parseId json len) (mjsonText json len (ascii "$.result")) expectedCmdId =
      .parsingError := by
  rw [cancelClass]
  by_cases hid : parseId json len = some expectedCmdId
  · have hno : ∀ t : Bytes, t ≠ [] → t.length < 32 →
        mjsonText json len (ascii "$.result") ≠ some t := by
      intro t hne hlt htext
      rcases h hid t htext with rfl | hle
      · exact hne rfl
      · omega
    rw [if_neg (not_not_intro hid), if_neg, if_neg]
    · exact hno _ (by decide) (by decide)
    · rintro (hok | hno')
      · exact hno _ (by decide) (by decide) hok
      · exact hno _ (by decide) (by decide) hno'
  · rw [if_pos hid]

/-- **Cancel replies.** The parser classifies an answer, and compares nothing with a null string,
just if the result is not another text than `Ok` that fits into its buffer. -/
theorem parseCancelResp_eq_iff (json : Bytes) (len : ℕ) (expectedCmdId : ℤ) :
    parseCancelResp json len expectedCmdId =
        some (cancelClass (parseId json len) (mjsonText json len (ascii "$.result"))
          expectedCmdId) ↔
      (parseId json len = some expectedCmdId →
        ∀ w, mjsonText json len (ascii "$.result") = some w →
          w = ascii "Ok" ∨ w = [] ∨ 32 ≤ w.length) := by
  by_cases hshort : parseId json len = some expectedCmdId ∧
      ∃ w, mjsonText json len (ascii "$.result") = some w ∧ w ≠ [] ∧ w.length < 32
  · obtain ⟨hid, w, htext, hne, hlen⟩ := hshort
    have hnames : IsShallow [ascii "result"] := .one (by decide)
    have hstr : ((CharArray.zero 32).write (w ++ [nul])).str = w :=
      CharArray.str_write (mjsonText_noNul hnames (path_result ▸ htext)) hlen
    simp only [parseCancelResp, parseRespResult_ok (.zero 32) hid htext hne hlen, hstr, htext, hid,
      ne_eq, not_true_eq_false, if_false, strcmp, Option.map_some, Option.bind_some,
      Option.map_none, Option.bind_none, forall_const, Option.some.injEq, forall_eq']
    by_cases hok : w = ascii "Ok"
    · subst hok
      simp [cancelClass]
    · simp only [hok, not_false_eq_true, decide_true, Bool.not_true, Bool.false_eq_true, if_false,
        reduceCtorEq, false_or, false_iff, not_or, not_le]
      exact ⟨hne, hlen⟩
  · have hlong : parseId json len = some expectedCmdId →
        ∀ w, mjsonText json len (ascii "$.result") = some w → w = [] ∨ 32 ≤ w.length := by
      intro hid w htext
      by_contra hno
      rw [not_or, not_le] at hno
      exact hshort ⟨hid, w, htext, hno⟩
    have hret := parseRespResult_fails (n := 32) (.zero 32) hlong
    refine iff_of_true ?_ fun hid w htext => .inr (hlong hid w htext)
    rw [cancelClass_of_long hlong]
    simp only [parseCancelResp]
    rw [if_pos (by rw [hret]; decide), hret]

def noTransactionReply : Value :=
  object [(ascii "jsonrpc", .string (ascii "2.0")), (ascii "result", .string (ascii "NoTransaction")),
    (ascii "id", .number (ascii "10"))]

/-- The answer when there is nothing to cancel is a success, and the parser does not return. -/
theorem noTransactionReply_null :
    cancelClass (parseId noTransactionReply.text noTransactionReply.text.length)
        (mjsonText noTransactionReply.text noTransactionReply.text.length (ascii "$.result")) 10 = .ok ∧
      parseCancelResp noTransactionReply.text noTransactionReply.text.length 10 = none := by
  decide +kernel

end OtiKiosk
