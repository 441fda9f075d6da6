import OtiKiosk.Printer.Emit

/-!
What the two kinds of buffers hold after any output. A buffer of fixed size does not
see the pieces: it holds the beginning of the output, and its flag says whether that
is all. A buffer that grows looks for the end of its text before each piece, so a NUL
in a piece hides what follows it in that piece, and a piece for which there is no
memory is missing.
-/

namespace OtiKiosk

open Ascii

/-! ### Buffers of fixed size -/

section

variable {size : ℕ}

theorem FixedBuf.ext {a b : FixedBuf size} (hwritten : a.written = b.written)
    (hoverflow : a.overflow = b.overflow) : a = b := by
  cases a
  cases b
  cases hwritten
  cases hoverflow
  rfl

theorem mjsonPrintFixedBuf_written (out : FixedBuf size) (ptr : Bytes) :
    (mjsonPrintFixedBuf out ptr).1.written = (out.written ++ ptr).take size := by
  have hfits := out.fits
  show out.written ++ ptr.take (if _ then _ else _) = _
  rw [List.take_append, List.take_of_length_le hfits]
  split_ifs with h
  · rfl
  · rw [List.take_length, List.take_of_length_le (not_lt.mp h)]

theorem mjsonPrintFixedBuf_overflow (out : FixedBuf size) (ptr : Bytes) :
    (mjsonPrintFixedBuf out ptr).1.overflow = true ↔
      out.overflow = true ∨ size < (out.written ++ ptr).length := by
  have hfits := out.fits
  show (if size - out.written.length < ptr.length then true else out.overflow) = true ↔ _
  rw [List.length_append]
  split_ifs with h
  · exact ⟨fun _ => .inr (by omega), fun _ => rfl⟩
  · exact ⟨.inl, fun h' => h'.resolve_right (by omega)⟩

theorem mjsonPrintFixedBuf_count (out : FixedBuf size) (ptr : Bytes) :
    out.written.length + (mjsonPrintFixedBuf out ptr).2 =
      (mjsonPrintFixedBuf out ptr).1.written.length := by
  have hfits := out.fits
  rw [mjsonPrintFixedBuf_written, List.length_take, List.length_append]
  show out.written.length + (if _ then _ else _) = _
  split_ifs <;> omega

/-- Two pieces are one to a buffer of fixed size. -/
theorem fixedBuf_seamless (size : ℕ) : (fixedBuf size).Seamless fun _ => True where
  good _ _ := trivial
  append out p q _ _ := by
    have hfirst := mjsonPrintFixedBuf_count out p
    have hsecond := mjsonPrintFixedBuf_count (mjsonPrintFixedBuf out p).1 q
    have hboth := mjsonPrintFixedBuf_count out (p ++ q)
    have htake : ∀ a b : Bytes, (a ++ b).take size = (a.take size ++ b).take size := by
      intro a b
      rw [List.take_append, List.take_append, List.take_take, min_self, List.length_take]
      congr 2
      omega
    have hwritten : (mjsonPrintFixedBuf out (p ++ q)).1.written =
        (mjsonPrintFixedBuf (mjsonPrintFixedBuf out p).1 q).1.written := by
      simp only [mjsonPrintFixedBuf_written]
      rw [← List.append_assoc]
      exact htake _ q
    have hoverflow : (mjsonPrintFixedBuf out (p ++ q)).1.overflow =
        (mjsonPrintFixedBuf (mjsonPrintFixedBuf out p).1 q).1.overflow := by
      rw [Bool.eq_iff_iff, mjsonPrintFixedBuf_overflow, mjsonPrintFixedBuf_overflow,
        mjsonPrintFixedBuf_overflow, mjsonPrintFixedBuf_written]
      simp only [List.length_append, List.length_take]
      have hor : ∀ {a b c d : Prop}, (b ↔ c ∨ d) → (a ∨ b ↔ (a ∨ c) ∨ d) := by
        intro a b c d h
        rw [h, or_assoc]
      apply hor
      omega
    refine Prod.ext (FixedBuf.ext hwritten hoverflow) ?_
    show (mjsonPrintFixedBuf out (p ++ q)).2 = (mjsonPrintFixedBuf out p).2 +
      (mjsonPrintFixedBuf (mjsonPrintFixedBuf out p).1 q).2
    rw [hwritten] at hboth
    omega

/-- **A buffer of fixed size** holds the beginning of the output, counts what it holds, and flags
an output that did not fit, however the output was cut into pieces. -/
theorem fixedBuf_exact (out : FixedBuf size) (pieces : List Bytes) :
    ((fixedBuf size).putAll out pieces).1.written = (out.written ++ pieces.flatten).take size ∧
      (((fixedBuf size).putAll out pieces).1.overflow = true ↔
        out.overflow = true ∨ size < (out.written ++ pieces.flatten).length) ∧
      out.written.length + ((fixedBuf size).putAll out pieces).2 =
        min size (out.written ++ pieces.flatten).length := by
  have hfits := out.fits
  cases pieces with
  | nil =>
      simp only [Sink.putAll, List.flatten_nil, List.append_nil, Nat.add_zero]
      refine ⟨(List.take_of_length_le hfits).symm, ⟨.inl, fun h => h.resolve_right (by omega)⟩, ?_⟩
      omega
  | cons p ps =>
      rw [(fixedBuf_seamless size).putAll_eq out trivial fun _ _ => trivial, List.flatten_cons]
      have hcount := mjsonPrintFixedBuf_count out (p ++ ps.flatten)
      have hwritten := mjsonPrintFixedBuf_written out (p ++ ps.flatten)
      refine ⟨hwritten, mjsonPrintFixedBuf_overflow out _, ?_⟩
      rw [hwritten, List.length_take] at hcount
      exact hcount

end

/-! ### Buffers that grow -/

def DynamicBuf.text (out : DynamicBuf) : Bytes := (out.buf.map cString).getD []

theorem cString_append_of_notMem {s : Bytes} (hs : nul ∉ s) (t : Bytes) :
    cString (s ++ t) = s ++ cString t := by
  rw [cString, cString, List.takeWhile_append_of_pos]
  intro c hc
  simp only [bne_iff_ne, ne_eq]
  rintro rfl
  exact hs hc

theorem nul_notMem_cString (s : Bytes) : nul ∉ cString s := by
  intro h
  have hne := List.mem_takeWhile_imp h
  simp at hne

theorem nul_notMem_text (out : DynamicBuf) : nul ∉ out.text := by
  rw [DynamicBuf.text]
  cases out.buf with
  | none => exact List.not_mem_nil
  | some b => exact nul_notMem_cString b

/-- A terminator ends no text early. -/
theorem cString_terminated (s : Bytes) : cString (s ++ [nul]) = cString s := by
  induction s with
  | nil => rfl
  | cons c s ih =>
      by_cases hc : c = nul
      · subst hc
        rfl
      · have hcons := cString_append_of_notMem (s := [c]) (by simpa using Ne.symm hc)
        rw [List.cons_append]
        exact (hcons (s ++ [nul])).trans ((congrArg _ ih).trans (hcons s).symm)

/-- What one piece adds to the text. -/
theorem mjsonPrintDynamicBuf_text (realloc : ℕ → ℕ → Bool) (out : DynamicBuf) (ptr : Bytes) :
    (mjsonPrintDynamicBuf realloc out ptr).1.text = out.text ++
      if realloc out.calls (out.text.length + ptr.length + 1) then cString ptr else [] := by
  show (if _ then _ else _ : DynamicBuf × ℕ).1.text = _
  rw [← DynamicBuf.text]
  split_ifs with h
  · show cString (out.text ++ ptr ++ [nul]) = _
    rw [cString_terminated, cString_append_of_notMem (nul_notMem_text out)]
  · rw [List.append_nil]
    rfl

theorem mjsonPrintDynamicBuf_count (realloc : ℕ → ℕ → Bool) (out : DynamicBuf) (ptr : Bytes) :
    (mjsonPrintDynamicBuf realloc out ptr).2 =
      if realloc out.calls (out.text.length + ptr.length + 1) then ptr.length else 0 := by
  show (if _ then _ else _ : DynamicBuf × ℕ).2 = _
  rw [← DynamicBuf.text]
  split_ifs <;> rfl

theorem cString_of_noNul {s : Bytes} (hs : nul ∉ s) : cString s = s := by
  have h := cString_append_of_notMem hs []
  rwa [List.append_nil, show cString [] = [] from rfl, List.append_nil] at h

/-- A piece without NULs is added and counted, or is missing and not counted. -/
theorem dynamicBuf_put (realloc : ℕ → ℕ → Bool) (out : DynamicBuf) {p : Bytes} (hp : nul ∉ p) :
    ∃ q, (q = p ∨ q = []) ∧ ((dynamicBuf realloc).put out p).1.text = out.text ++ q ∧
      ((dynamicBuf realloc).put out p).2 = q.length := by
  have hprint := mjsonPrintDynamicBuf_text realloc out p
  have hcount := mjsonPrintDynamicBuf_count realloc out p
  rw [cString_of_noNul hp] at hprint
  split_ifs at hprint hcount
  · exact ⟨p, .inl rfl, hprint, hcount⟩
  · exact ⟨[], .inr rfl, hprint, hcount⟩

/-- Without NULs in the output, no more is counted than was printed. -/
theorem dynamicBuf_count_le (realloc : ℕ → ℕ → Bool) (out : DynamicBuf) {pieces : List Bytes}
    (hpieces : ∀ p ∈ pieces, nul ∉ p) :
    ((dynamicBuf realloc).putAll out pieces).2 ≤ pieces.flatten.length := by
  induction pieces generalizing out with
  | nil => exact le_rfl
  | cons p ps ih =>
      obtain ⟨hp, hps⟩ := List.forall_mem_cons.mp hpieces
      obtain ⟨q, hq, -, hcount⟩ := dynamicBuf_put realloc out hp
      have hle := ih ((dynamicBuf realloc).put out p).1 hps
      have hqp : q.length ≤ p.length := by
        rcases hq with rfl | rfl
        · exact le_rfl
        · exact Nat.zero_le _
      rw [Sink.putAll, List.flatten_cons, List.length_append, hcount]
      omega

/-- The text grows by as much as is counted. -/
theorem dynamicBuf_count (realloc : ℕ → ℕ → Bool) (out : DynamicBuf) {pieces : List Bytes}
    (hpieces : ∀ p ∈ pieces, nul ∉ p) :
    ((dynamicBuf realloc).putAll out pieces).1.text.length =
      out.text.length + ((dynamicBuf realloc).putAll out pieces).2 := by
  induction pieces generalizing out with
  | nil => rfl
  | cons p ps ih =>
      obtain ⟨hp, hps⟩ := List.forall_mem_cons.mp hpieces
      obtain ⟨q, -, htext, hcount⟩ := dynamicBuf_put realloc out hp
      rw [Sink.putAll, ih _ hps, htext, hcount, List.length_append, Nat.add_assoc]

/-- **A buffer that grows** holds the whole output exactly if as much was counted as was printed:
where memory is missing for a piece, the count tells. -/
theorem dynamicBuf_complete_iff (realloc : ℕ → ℕ → Bool) (out : DynamicBuf) {pieces : List Bytes}
    (hpieces : ∀ p ∈ pieces, nul ∉ p) :
    ((dynamicBuf realloc).putAll out pieces).1.text = out.text ++ pieces.flatten ↔
      ((dynamicBuf realloc).putAll out pieces).2 = pieces.flatten.length := by
  constructor
  · intro h
    have hlen := dynamicBuf_count realloc out hpieces
    rw [h, List.length_append] at hlen
    omega
  · induction pieces generalizing out with
    | nil =>
        intro _
        simp [Sink.putAll]
    | cons p ps ih =>
        obtain ⟨hp, hps⟩ := List.forall_mem_cons.mp hpieces
        obtain ⟨q, hq, htext, hcount⟩ := dynamicBuf_put realloc out hp
        have hle := dynamicBuf_count_le realloc ((dynamicBuf realloc).put out p).1 hps
        intro h
        rw [Sink.putAll, List.flatten_cons, List.length_append, hcount] at h
        -- no piece can count for another, so this one was printed, or there was nothing of it
        have hqp : q = p := by
          rcases hq with rfl | rfl
          · rfl
          · rw [List.length_nil] at h
            exact (List.length_eq_zero_iff.mp (by omega)).symm
        subst hqp
        rw [Sink.putAll, List.flatten_cons, ← List.append_assoc, ← htext]
        exact ih _ hps (by omega)

/-- The second call of `realloc` fails, and a later one for as many bytes does not. -/
theorem dynamicBuf_complete_iff_gap :
    let r := (dynamicBuf fun n _ => n ≠ 1).putAll ⟨none, 0⟩ [ascii "ab", ascii "cd", ascii "ef"]
    (∀ p ∈ [ascii "ab", ascii "cd", ascii "ef"], nul ∉ p) ∧ r.1.text = ascii "abef" ∧ r.2 = 4 ∧
      (r.1.text = ascii "abcdef" ↔ r.2 = 6) :=
  ⟨by decide, by decide, by decide,
    dynamicBuf_complete_iff (fun n _ => n ≠ 1) ⟨none, 0⟩ (by decide)⟩

end OtiKiosk
