import OtiKiosk.Client.Operations
import OtiKiosk.Client.Spelling
import OtiKiosk.Commands.Cancel
import OtiKiosk.Commands.Tokens

/-!
The commands that read a text into a buffer of the caller. The buffer is cleared
first, and then `mjson_unescape` writes into it until it knows that it cannot
finish. What it has written by then stays, and fills the buffer to its last byte
if the text is too long.
-/

namespace OtiKiosk

open Ascii Json

/-! ### Buffers -/

/-- A terminator is in the array exactly if its string leaves room for one. -/
theorem CharArray.nul_mem_iff {n : ℕ} (a : CharArray n) : nul ∈ a.bytes ↔ a.str.length < n := by
  have hsize : a.str.length ≤ n := by
    have := (List.takeWhile_prefix (l := a.bytes) (· != nul)).length_le
    rw [a.size] at this
    exact this
  constructor
  · intro hmem
    refine lt_of_le_of_ne hsize ?_
    intro hlen
    have hall : a.str = a.bytes :=
      (List.takeWhile_prefix _).eq_of_length (hlen.trans a.size.symm)
    have hno := List.takeWhile_eq_self_iff.mp hall nul hmem
    simp at hno
  · intro hlt
    by_contra hno
    have hall : a.str = a.bytes := by
      refine List.takeWhile_eq_self_iff.mpr ?_
      intro c hc
      have hne : c ≠ nul := by
        rintro rfl
        exact hno hc
      simpa using hne
    rw [hall, a.size] at hlt
    exact lt_irrefl n hlt

theorem CharArray.str_zero (n : ℕ) : (CharArray.zero n).str = [] := by
  cases n with
  | zero => rfl
  | succ n => rfl

/-- What is written first is what the string starts with. -/
theorem CharArray.str_write_cons {n : ℕ} (hn : 1 ≤ n) (a : CharArray n) {c : UInt8} (hc : c ≠ nul)
    (w : Bytes) : (a.write (c :: w)).str ≠ [] := by
  obtain ⟨n, rfl⟩ := Nat.exists_eq_add_of_le' hn
  have hstr : (a.write (c :: w)).str =
      cString (c :: (w ++ a.bytes.drop (w.length + 1)).take n) := rfl
  rw [hstr, cString, List.takeWhile_cons_of_pos (by simpa using hc)]
  exact List.cons_ne_nil _ _

/-! ### Unfinished texts -/

/-- The string starts with an escape that is not known. -/
def StartsUnknown (raw : Bytes) : Prop := ∃ c s, raw = backslash :: c :: s ∧ mjsonEsc c = none

theorem mjsonUnescapeLoop_noNul {raw : Bytes} (hraw : nul ∉ raw) (n : ℕ) :
    nul ∉ (mjsonUnescapeLoop raw n).1 := by
  induction raw, n using mjsonUnescapeLoop.induct with
  | case1 n => exact List.not_mem_nil
  | case2 c s => exact List.not_mem_nil
  | case3 c n => exact hraw
  | case4 c' s n hesc =>
      simp only [mjsonUnescapeLoop, if_true, hesc]
      exact List.not_mem_nil
  | case5 c' s n b hesc w ok hloop ih =>
      simp only [mjsonUnescapeLoop, if_true, hesc]
      simp only [List.mem_cons, not_or] at hraw ⊢
      exact ⟨(mjsonEsc_ne_nul hesc).symm, ih hraw.2.2⟩
  | case6 c c' s n hc w ok hloop ih =>
      simp only [mjsonUnescapeLoop, hc, if_false]
      rw [List.mem_cons, not_or] at hraw ⊢
      exact ⟨hraw.1, ih hraw.2⟩

/-- Nothing is written of a text that cannot be finished only where it starts with an escape that is
not known. -/
theorem mjsonUnescapeLoop_nil_iff {raw : Bytes} {n : ℕ} (hn : 1 ≤ n) {w : Bytes}
    (h : mjsonUnescapeLoop raw n = (w, false)) : w = [] ↔ StartsUnknown raw := by
  obtain ⟨n, rfl⟩ := Nat.exists_eq_add_of_le' hn
  match raw with
  | [] => simp [mjsonUnescapeLoop] at h
  | [c] =>
      obtain ⟨rfl, -⟩ := Prod.mk.inj h
      refine iff_of_false (List.cons_ne_nil _ _) ?_
      rintro ⟨c', s, heq, -⟩
      cases heq
  | c :: c' :: s =>
      simp only [mjsonUnescapeLoop] at h
      by_cases hc : c = backslash
      · subst hc
        cases hesc : mjsonEsc c' with
        | none =>
            simp only [if_true, hesc, Prod.mk.injEq] at h
            exact iff_of_true h.1.symm ⟨c', s, rfl, hesc⟩
        | some b =>
            simp only [if_true, hesc, Prod.mk.injEq] at h
            refine iff_of_false (h.1 ▸ List.cons_ne_nil _ _) ?_
            rintro ⟨d, s', heq, hnone⟩
            obtain ⟨rfl, -⟩ := List.cons.inj (List.cons.inj heq).2
            rw [hesc] at hnone
            cases hnone
      · simp only [hc, if_false, Prod.mk.injEq] at h
        refine iff_of_false (h.1 ▸ List.cons_ne_nil _ _) ?_
        rintro ⟨d, s', heq, -⟩
        exact hc (List.cons.inj heq).1

/-! ### Answers -/

def resultString (resp : Bytes) : Option Bytes := stringToken resp resp.length (ascii "$.result")

/-- The caller finds a string in the buffer: the one that was answered, or else an empty one. -/
structure TextKept {n : ℕ} (resp : Bytes) (out : KioskRet × CharArray n) : Prop where
  terminated : nul ∈ out.2.bytes
  text : out.1 = .ok → ∃ raw, resultString resp = some raw ∧ out.2.str = unescape raw
  empty : out.1 ≠ .ok → out.2.str = []

/-- The text fits into the buffer, or nothing of it is written. -/
def FitsOrStops (n : ℕ) (raw : Bytes) : Prop :=
  (∃ w, decode raw = some w ∧ w.length < n) ∨ StartsUnknown raw

theorem textKept_zero {n : ℕ} (hn : 1 ≤ n) {ret : KioskRet} (hret : ret ≠ .ok) (resp : Bytes) :
    TextKept resp (ret, CharArray.zero n) := by
  refine ⟨?_, fun h => (hret h).elim, fun _ => CharArray.str_zero n⟩
  rw [CharArray.nul_mem_iff, CharArray.str_zero]
  exact hn

theorem resultString_noNul {resp raw : Bytes} (h : resultString resp = some raw) : nul ∉ raw := by
  rw [resultString, path_result] at h
  exact lexicon_noNul (string_of_token (by decide) h)

/-- A string that was decoded leaves itself in the buffer. -/
theorem textKept_decoded {n : ℕ} {resp raw w : Bytes} (hresult : resultString resp = some raw)
    (hdecode : decode raw = some w) (hlen : w.length < n) {ret : KioskRet}
    (hret : ret ≠ .ok → w = []) :
    TextKept resp (ret, (CharArray.zero n).write (w ++ [nul])) := by
  have hstr := CharArray.str_write (a := .zero n)
    (decode_noNul hdecode (resultString_noNul hresult)) hlen
  refine ⟨?_, fun _ => ⟨raw, hresult, ?_⟩, fun hne => hstr.trans (hret hne)⟩
  · rw [CharArray.nul_mem_iff, hstr]
    exact hlen
  · rw [hstr, unescape_of_decode hdecode]

/-- What was written before the end is in the buffer. -/
theorem textKept_unfinished_iff {n : ℕ} (hn : 1 ≤ n) {raw w : Bytes} (hraw : nul ∉ raw)
    (hloop : mjsonUnescapeLoop raw n = (w, false)) {ret : KioskRet} (hret : ret ≠ .ok)
    (resp : Bytes) :
    TextKept resp (ret, (CharArray.zero n).write w) ↔ FitsOrStops n raw := by
  have hfits : FitsOrStops n raw ↔ w = [] := by
    rw [mjsonUnescapeLoop_nil_iff hn hloop, FitsOrStops, or_iff_right_iff_imp]
    rintro ⟨v, hv⟩
    rw [(mjsonUnescapeLoop_eq_iff raw v n).mpr hv] at hloop
    cases hloop
  have hnul := mjsonUnescapeLoop_noNul hraw n
  rw [hloop] at hnul
  rw [hfits]
  cases w with
  | nil =>
      rw [CharArray.write_nil]
      exact iff_of_true (textKept_zero hn hret resp) rfl
  | cons c w =>
      -- a string that is not empty is left behind
      refine iff_of_false (fun h => ?_) (List.cons_ne_nil _ _)
      have hc : c ≠ nul := by
        rintro rfl
        exact hnul List.mem_cons_self
      exact CharArray.str_write_cons hn _ hc w (h.empty hret)

theorem parseRespResult_kept_iff {n : ℕ} (hn : 1 ≤ n) (resp : Bytes) (expectedCmdId : ℤ) :
    TextKept resp (parseRespResult resp resp.length expectedCmdId (.zero n)) ↔
      (parseId resp resp.length = some expectedCmdId →
        ∀ raw, resultString resp = some raw → FitsOrStops n raw) := by
  have herror : KioskRet.parsingError ≠ .ok := by decide
  by_cases hid : parseId resp resp.length = some expectedCmdId
  · simp only [hid, forall_const, parseRespResult, ne_eq, not_true_eq_false, if_false,
      mjsonGetString_token]
    have hresult : stringToken resp resp.length (ascii "$.result") = resultString resp := rfl
    cases hraw : resultString resp with
    | none =>
        rw [hresult, hraw]
        simp only [CharArray.write_nil]
        exact iff_of_true (textKept_zero hn herror resp) fun raw h => by cases h
    | some raw =>
        rw [hresult, hraw]
        simp only [Option.some.injEq, forall_eq']
        cases hloop : mjsonUnescapeLoop raw n with
        | mk w ok =>
            cases ok with
            | true =>
                obtain ⟨hdecode, hlen⟩ := (mjsonUnescapeLoop_eq_iff raw w n).mp hloop
                refine iff_of_true ?_ (.inl ⟨w, hdecode, hlen⟩)
                simp only [mjsonUnescape, hloop, if_true]
                cases w with
                | nil => exact textKept_decoded hraw hdecode hlen fun _ => rfl
                | cons c w => exact textKept_decoded hraw hdecode hlen fun h => (h rfl).elim
            | false =>
                simp only [mjsonUnescape, hloop, Bool.false_eq_true, if_false]
                exact textKept_unfinished_iff hn (resultString_noNul hraw) hloop herror resp
  · simp only [hid, false_implies, iff_true, parseRespResult]
    cases hparse : parseId resp resp.length with
    | none => exact textKept_zero hn herror resp
    | some id =>
        have hne : id ≠ expectedCmdId := by
          rintro rfl
          exact hid hparse
        simp only [hne, ne_eq, not_false_eq_true, if_true]
        exact textKept_zero hn herror resp

/-! ### The three commands -/

inductive TextCommand
  | kioskId | kioskVersion | readerVersion

namespace TextCommand

def run : TextCommand → (n : ℕ) → SendReceive → KioskRet × CharArray n
  | .kioskId => getKioskId
  | .kioskVersion => getKioskVersion
  | .readerVersion => getReaderVersion

def text : TextCommand → Bytes
  | .kioskId => getKioskIdCmd
  | .kioskVersion => getKioskVersionCmd
  | .readerVersion => getReaderVersionCmd

def id : TextCommand → ℤ
  | .kioskId => 3
  | .kioskVersion => 4
  | .readerVersion => 5

theorem run_eq (cmd : TextCommand) (n : ℕ) (sendReceive : SendReceive) :
    cmd.run n sendReceive = getText cmd.text cmd.id n sendReceive := by
  cases cmd <;> rfl

/-- **Texts.** The caller finds the string that was answered, or else an empty one, if and only if
an answer with the id of the command has no string as its result that is too long for the buffer, or
has an escape that is not known behind its start. -/
theorem text_kept_iff (cmd : TextCommand) {n : ℕ} (hn : 1 ≤ n) (sendReceive : SendReceive) :
    TextKept (sendReceive cmd.text 128 500).2 (cmd.run n sendReceive) ↔
      ((sendReceive cmd.text 128 500).1 = .ok →
        parseId (sendReceive cmd.text 128 500).2 (sendReceive cmd.text 128 500).2.length =
          some cmd.id →
        ∀ raw, resultString (sendReceive cmd.text 128 500).2 = some raw → FitsOrStops n raw) := by
  rw [run_eq, getText]
  generalize sendReceive cmd.text 128 500 = reply
  obtain ⟨ret, resp⟩ := reply
  have htake : (respBuff resp).take resp.length = resp.take resp.length := by
    rw [respBuff, List.take_left, List.take_length]
  by_cases hret : ret = .ok
  · subst hret
    simp only [ne_eq, not_true_eq_false, if_false, forall_const, parseRespResult_congr htake]
    exact parseRespResult_kept_iff hn resp cmd.id
  · simp only [ne_eq, hret, not_false_eq_true, if_true, false_implies, iff_true]
    exact textKept_zero hn hret resp

def answer (id result : Bytes) : Bytes :=
  (object [(ascii "jsonrpc", .string (ascii "2.0")), (ascii "result", .string result),
    (ascii "id", .number id)]).text

theorem shortText_kept :
    TextKept (answer (ascii "3") (ascii "K42"))
      (kioskId.run 4 fun _ _ _ => (.ok, answer (ascii "3") (ascii "K42"))) := by
  refine (text_kept_iff kioskId (by decide) fun _ _ _ => (.ok, answer (ascii "3") (ascii "K42"))).mpr ?_
  intro _ _ raw hraw
  have hresult : resultString (answer (ascii "3") (ascii "K42")) = some (ascii "K42") := by
    decide +kernel
  rw [hresult, Option.some.injEq] at hraw
  subst hraw
  exact .inl ⟨ascii "K42", by decide +kernel, by decide⟩

/-- A text that does not fit fills the buffer, and a part of one with an escape that is not known
stays in it. -/
theorem longText_unterminated :
    (kioskId.run 3 (fun _ _ _ => (.ok, answer (ascii "3") (ascii "K42")))) =
        (.parsingError, ⟨ascii "K42", by decide⟩) ∧
      (kioskId.run 8 (fun _ _ _ => (.ok, answer (ascii "3") (ascii "K\\u0034")))).1 =
        .parsingError ∧
      (kioskId.run 8 (fun _ _ _ => (.ok, answer (ascii "3") (ascii "K\\u0034")))).2.str =
        ascii "K" ∧
      ¬TextKept (answer (ascii "3") (ascii "K42"))
        (kioskId.run 3 fun _ _ _ => (.ok, answer (ascii "3") (ascii "K42"))) := by
  have hrun : (kioskId.run 3 (fun _ _ _ => (.ok, answer (ascii "3") (ascii "K42")))) =
      (.parsingError, ⟨ascii "K42", by decide⟩) := by decide +kernel
  refine ⟨hrun, by decide +kernel, by decide +kernel, ?_⟩
  intro h
  have hterminated := h.terminated
  rw [hrun] at hterminated
  exact absurd hterminated (by decide)

end TextCommand

end OtiKiosk
