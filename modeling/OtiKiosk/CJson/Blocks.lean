import OtiKiosk.CJson.Exact

/-!
What the print functions of `cJSON.c` return. A print never accesses memory outside of
its buffer, however often the buffer was enlarged and whether that succeeded. What it
returns is the whole text with its terminator, or nothing.
-/

namespace OtiKiosk

open Ascii Json

def Allocator.Grants (A : Allocator) : Prop :=
  ∀ size, (A.allocate size).isSome ∧ (A.enlarge size).isSome ∧ (A.shrink size).isSome

/-- Memory without end, filled with zeros. -/
def Allocator.zeros : Allocator := ⟨fun _ => some fun _ => 0, fun _ => some fun _ => 0,
  fun _ => some fun _ => 0⟩

theorem Allocator.zeros_grants : zeros.Grants := fun _ => ⟨rfl, rfl, rfl⟩

namespace Setting

variable {S : Setting} {item : CJson .item} {p : PrintBuffer} {block : Bytes}

/-- A print that starts in an empty buffer. If it is known how large the buffer can become, it is
known whether the print succeeds. -/
theorem printValue_run (item : CJson .item) (hp : S.At 0 [] [] p) :
    ∃ r q, printValue S.realloc item p = some (r, q) ∧
      (r = true → item.Printable ∧ S.Written 0 (item.text S.format) [] q) ∧
      ∀ c ∈ S.cap, (r = true ↔ item.Printable ∧ (item.text S.format).length + 2 ≤ c) := by
  obtain ⟨r, q, hrun, hsucceeds, hfails⟩ := (needs_print item 0).2 [] p hp
  have hlen : ([] : Bytes).length + ((item.text S.format).length + 1) + 1 =
      (item.text S.format).length + 2 := by
    rw [List.length_nil]
    omega
  refine ⟨r, q, hrun, fun hr => ⟨(hsucceeds hr).1.1, (hsucceeds hr).2⟩,
    fun c hc => ⟨fun hr => ?_, ?_⟩⟩
  · exact ⟨(hsucceeds hr).1.1, hlen ▸ (hsucceeds hr).1.2 c hc⟩
  · intro hboth
    cases r with
    | true => rfl
    | false =>
        rcases hfails rfl with hno | hover
        · exact absurd hboth.1 hno
        · have hlt : (item.text S.format).length + 2 > c := hlen ▸ hover c hc
          exact absurd hboth.2 (Nat.not_le.mpr hlt)

theorem text_noNul (format : Bool) (item : CJson .item) : nul ∉ item.text format :=
  (needs_print (S := ⟨fun _ => none, format, none⟩) item 0).1

/-- The block of a print that has succeeded. -/
theorem Written.begins (h : S.Written 0 (item.text S.format) [] p) :
    ∃ block, p.buffer = some block ∧ block.length = p.length ∧
      item.text S.format ++ [nul] <+: block := by
  obtain ⟨done, todo, htext, hp⟩ := h
  obtain ⟨block, hbuffer, hlength, hpre⟩ := hp.block
  refine ⟨block, hbuffer, hlength, ?_⟩
  rwa [htext, List.append_assoc]

end Setting

open Setting

variable {A : Allocator}

/-- How large a buffer can become is known if all memory is granted. -/
theorem Allocator.exists_cap (A : Allocator) :
    ∃ cap : Option ℕ, (∀ c ∈ cap, c = maxSize ∧ A.Grants) ∧ (A.Grants → cap = some maxSize) := by
  by_cases h : A.Grants
  · exact ⟨some maxSize, by simp [h], fun _ => rfl⟩
  · exact ⟨none, nofun, fun hgrants => absurd hgrants h⟩

theorem toNat_le_maxSize {n : BitVec 32} (h : ¬n.toInt < 0) : n.toNat ≤ maxSize := by
  rw [BitVec.toInt_eq_toNat_cond] at h
  have hmax : maxSize = 2147483647 := rfl
  split_ifs at h <;> omega

/-- A block that was just allocated holds nothing yet. -/
theorem at_start {cap : Option ℕ} (hcap : ∀ c ∈ cap, c = maxSize ∧ A.Grants) {length : ℕ}
    (hlength : length ≤ maxSize) (format : Bool) (fresh : ℕ → UInt8) :
    (Setting.mk A.enlarge format cap).At 0 [] []
      { buffer := some (resized [] length fresh)
        length := length
        offset := 0
        depth := 0
        noalloc := false
        format := format } where
  block := ⟨_, rfl, resized_length _ _ _, List.nil_prefix⟩
  offset := rfl
  inside := Nat.eq_zero_or_pos length
  depth := rfl
  format := rfl
  capped := fun c hc => ⟨hlength, (hcap c hc).1, fun size => ((hcap c hc).2 size).2.1⟩

/-- What `print` returns is the terminated text of an item that can be printed, and if it gets all
the memory it asks for, it returns it exactly if it is short enough. -/
theorem cjsonPrint_returns (A : Allocator) (format : Bool) (item : CJson .item) :
    ∃ result, cjsonPrint A format item = some result ∧
      (∀ s ∈ result, item.Printable ∧ s = item.text format ++ [nul]) ∧
      (A.Grants → (result.isSome ↔ item.Printable ∧ (item.text format).length + 2 ≤ maxSize)) := by
  obtain ⟨cap, hcap, hgrants⟩ := A.exists_cap
  rw [cjsonPrint]
  cases hallocate : A.allocate 256 with
  | none =>
      refine ⟨none, rfl, fun s hs => absurd hs (Option.not_mem_none s), fun h => ?_⟩
      have hsome := (h 256).1
      rw [hallocate] at hsome
      cases hsome
  | some fresh =>
  obtain ⟨r, q, hrun, hsucceeds, hexact⟩ := printValue_run item
    (at_start hcap (by decide : 256 ≤ maxSize) format fresh)
  cases r with
  | false =>
      refine ⟨none, ?_, fun s hs => absurd hs (Option.not_mem_none s),
        fun h => hexact maxSize (hgrants h)⟩
      simp only [Attempt.andThen]
      rw [hrun]
  | true =>
      obtain ⟨hprintable, hwritten⟩ := hsucceeds rfl
      obtain ⟨q', hupdate, hq'⟩ := hwritten.update (text_noNul format item)
      obtain ⟨block, hbuffer, hlength, hpre⟩ := hq'.block
      have hoffset : q'.offset = (item.text format).length := hq'.offset
      have hshrunk : ∀ fresh, resized block (q'.offset + 1) fresh = item.text format ++ [nul] := by
        intro fresh
        have htake := List.prefix_iff_eq_take.mp hpre
        have hle := hpre.length_le
        simp only [List.nil_append, List.length_append, List.length_singleton] at htake hle
        rw [resized, hoffset, ← htake, Nat.sub_eq_zero_of_le hle, List.range_zero, List.map_nil,
          List.append_nil]
      refine ⟨q'.buffer.bind fun block => (A.shrink (q'.offset + 1)).map fun fresh =>
        resized block (q'.offset + 1) fresh, ?_, fun s hs => ⟨hprintable, ?_⟩, fun h => ?_⟩
      · simp only [Attempt.andThen]
        rw [hrun]
        simp only [hupdate]
      · rw [hbuffer, Option.bind_some, Option.mem_def, Option.map_eq_some_iff] at hs
        obtain ⟨fresh, -, rfl⟩ := hs
        exact hshrunk fresh
      · rw [hbuffer, Option.bind_some, Option.isSome_map, (h _).2.2]
        exact hexact maxSize (hgrants h)

/-- `cJSON_PrintBuffered` returns a block that begins with the same text, whatever its size is set
to, unless that is negative. -/
theorem cJsonPrintBuffered_returns (A : Allocator) (item : CJson .item) (prebuffer : BitVec 32)
    (fmt : Bool) :
    ∃ result, cJsonPrintBuffered A item prebuffer fmt = some result ∧
      (∀ block ∈ result, item.Printable ∧ item.text fmt ++ [nul] <+: block) ∧
      (A.Grants → (result.isSome ↔
        0 ≤ prebuffer.toInt ∧ item.Printable ∧ (item.text fmt).length + 2 ≤ maxSize)) := by
  obtain ⟨cap, hcap, hgrants⟩ := A.exists_cap
  rw [cJsonPrintBuffered]
  by_cases hnegative : prebuffer.toInt < 0
  · rw [if_pos hnegative]
    exact ⟨none, rfl, nofun, fun _ => ⟨nofun, fun h => absurd hnegative (Int.not_lt.mpr h.1)⟩⟩
  · rw [if_neg hnegative]
    have hsize := toNat_le_maxSize hnegative
    cases hallocate : A.allocate prebuffer.toNat with
    | none =>
        refine ⟨none, rfl, nofun, fun h => ?_⟩
        have hsome := (h prebuffer.toNat).1
        rw [hallocate] at hsome
        cases hsome
    | some fresh =>
        obtain ⟨r, q, hrun, hsucceeds, hexact⟩ :=
          printValue_run item (at_start hcap hsize fmt fresh)
        simp only [hrun]
        cases r with
        | false =>
            refine ⟨none, rfl, nofun, fun h => ⟨nofun, fun hall => ?_⟩⟩
            exact (hexact maxSize (hgrants h)).mpr hall.2
        | true =>
            obtain ⟨hprintable, hwritten⟩ := hsucceeds rfl
            obtain ⟨block, hbuffer, -, hpre⟩ := hwritten.begins
            refine ⟨q.buffer, rfl, fun s hs => ⟨hprintable, ?_⟩, fun h => ?_⟩
            · rw [hbuffer, Option.mem_some_iff] at hs
              rwa [← hs]
            · rw [hbuffer]
              exact ⟨fun _ => ⟨Int.not_lt.mp hnegative, (hexact maxSize (hgrants h)).mp rfl⟩,
                fun _ => rfl⟩

/-- **The prints are exact**: `cJSON_Print`, `cJSON_PrintUnformatted` and `cJSON_PrintBuffered` are
defined for every item, whatever memory they get and whatever size they begin with. What they
return is or begins with the same terminated text. -/
theorem cjsonPrint_exact (A : Allocator) (format : Bool) (item : CJson .item)
    (prebuffer : BitVec 32) :
    (∃ result, cjsonPrint A format item = some result ∧
      (∀ s ∈ result, item.Printable ∧ s = item.text format ++ [nul]) ∧
      (A.Grants → (result.isSome ↔ item.Printable ∧ (item.text format).length + 2 ≤ maxSize))) ∧
    ∃ result, cJsonPrintBuffered A item prebuffer format = some result ∧
      (∀ block ∈ result, item.Printable ∧ item.text format ++ [nul] <+: block) ∧
      (A.Grants → (result.isSome ↔
        0 ≤ prebuffer.toInt ∧ item.Printable ∧ (item.text format).length + 2 ≤ maxSize)) :=
  ⟨cjsonPrint_returns A format item, cJsonPrintBuffered_returns A item prebuffer format⟩

/-- `cJSON_PrintPreallocated` succeeds exactly if the buffer is one byte longer than the terminated
text, which it then begins with. -/
theorem cJsonPrintPreallocated_exact (A : Allocator) (item : CJson .item) (length : BitVec 32)
    {buffer : Bytes} (hbuffer : 0 ≤ length.toInt → buffer.length = length.toNat) (format : Bool) :
    ∃ result after, cJsonPrintPreallocated A item length buffer format = some (result, after) ∧
      (result = true ↔
        0 ≤ length.toInt ∧ item.Printable ∧ (item.text format).length + 2 ≤ length.toNat) ∧
      (result = true → ∃ block, after = some block ∧ item.text format ++ [nul] <+: block) := by
  rw [cJsonPrintPreallocated]
  by_cases hnegative : length.toInt < 0
  · rw [if_pos hnegative]
    exact ⟨false, _, rfl, ⟨nofun, fun h => absurd hnegative (Int.not_lt.mpr h.1)⟩, nofun⟩
  · rw [if_neg hnegative]
    have hsize := toNat_le_maxSize hnegative
    have hlength := hbuffer (Int.not_lt.mp hnegative)
    have hstart : (Setting.mk A.enlarge format (some length.toNat)).At 0 [] []
        { buffer := some buffer
          length := length.toNat
          offset := 0
          depth := 0
          noalloc := true
          format := format } := by
      refine ⟨⟨buffer, rfl, hlength, List.nil_prefix⟩, rfl, Nat.eq_zero_or_pos _, rfl, rfl,
        fun c hc => ⟨hsize, ?_⟩⟩
      rw [if_pos rfl]
      exact (Option.mem_some_iff.mp hc).symm
    obtain ⟨r, q, hrun, hsucceeds, hexact⟩ := printValue_run item hstart
    simp only [hrun]
    refine ⟨r, q.buffer, rfl, ?_, fun hr => ?_⟩
    · rw [hexact length.toNat rfl]
      exact ⟨fun h => ⟨Int.not_lt.mp hnegative, h⟩, fun h => h.2⟩
    · obtain ⟨block, hblock, -, hpre⟩ := (hsucceeds hr).2.begins
      exact ⟨block, hblock, hpre⟩

/-- Eight bytes are enough for a text of six. -/
theorem cJsonPrintPreallocated_exact_eight :
    ∃ block, cJsonPrintPreallocated .zeros (.array (.cons none .null .nil)) 8
        (List.replicate 8 space) false = some (true, some block) ∧
      ascii "[null]" ++ [nul] <+: block := by
  obtain ⟨result, after, hrun, hresult, hafter⟩ := cJsonPrintPreallocated_exact .zeros
    (.array (.cons none .null .nil)) 8
    (fun _ => (by decide : (List.replicate 8 space).length = (8 : BitVec 32).toNat)) false
  have htrue : result = true := hresult.mpr ⟨by decide, ⟨trivial, trivial⟩, by decide⟩
  obtain ⟨block, rfl, hpre⟩ := hafter htrue
  exact ⟨block, by rw [hrun, htrue], hpre⟩

end OtiKiosk
