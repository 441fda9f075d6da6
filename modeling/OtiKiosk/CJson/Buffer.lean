import OtiKiosk.CJson.Print

/-!
The buffer of a print. Whatever `realloc` does, `ensure` keeps the text printed so far
and, if it returns a place, leaves room there; and if it is known how large the buffer
can become, it returns a place exactly if that is enough.

A program needs `n` bytes if it succeeds exactly if `n` bytes and a terminator fit behind
what was printed before. What follows another program needs more than that program does,
so that the needs of a sequence are those of its last part.
-/

namespace OtiKiosk

open Ascii

/-- What does not change in a print: `realloc`, the format, and how large the buffer can become, if
that is known. -/
structure Setting where
  realloc : Realloc
  format : Bool
  cap : Option ℕ

namespace Setting

variable (S : Setting)

/-- The buffer can become as large as is known. -/
def Capped (p : PrintBuffer) : Prop := ∀ c ∈ S.cap, p.length ≤ maxSize ∧
  if p.noalloc then c = p.length else c = maxSize ∧ ∀ size, (S.realloc size).isSome = true

def Fits (n : ℕ) : Prop := ∀ c ∈ S.cap, n ≤ c

def Overflows (n : ℕ) : Prop := ∀ c ∈ S.cap, c < n

/-- `pre` was printed, `next` stands behind it, and the print is inside of `depth` brackets. -/
structure At (depth : ℕ) (pre next : Bytes) (p : PrintBuffer) : Prop where
  block : ∃ block, p.buffer = some block ∧ block.length = p.length ∧ pre ++ next <+: block
  offset : p.offset = pre.length
  inside : p.length = 0 ∨ p.offset < p.length
  depth : p.depth = depth
  format : p.format = S.format
  capped : S.Capped p

variable {S} {d d' n m : ℕ} {pre next t u w : Bytes} {p : PrintBuffer}

theorem Overflows.mono (h : S.Overflows n) (hle : n ≤ m) : S.Overflows m :=
  fun c hc => (h c hc).trans_le hle

theorem At.nil_next (h : S.At d pre next p) : S.At d pre [] p := by
  obtain ⟨block, hbuffer, hlength, hpre⟩ := h.block
  refine ⟨⟨block, hbuffer, hlength, ?_⟩, h.offset, h.inside, h.depth, h.format, h.capped⟩
  rw [List.append_nil]
  exact (List.prefix_append _ _).trans hpre

theorem prefix_resized {w block : Bytes} (h : w <+: block) {size : ℕ} (hle : block.length ≤ size)
    (fresh : ℕ → UInt8) : w <+: resized block size fresh := by
  rw [resized, List.take_of_length_le hle]
  exact h.trans (List.prefix_append _ _)

theorem resized_length (block : Bytes) (size : ℕ) (fresh : ℕ → UInt8) :
    (resized block size fresh).length = size := by
  rw [resized, List.length_append, List.length_take, List.length_map, List.length_range]
  omega

/-! ### The two functions on the buffer -/

theorem At.enlarge (h : S.At d pre next p) (hnoalloc : p.noalloc = false) {block : Bytes}
    (hbuffer : p.buffer = some block) (hgrows : p.length < n) (hinside : pre.length < n) :
    ((p.enlarge S.realloc block n).1 = true → S.At d pre next (p.enlarge S.realloc block n).2 ∧
      n ≤ (p.enlarge S.realloc block n).2.length ∧ S.Fits n) ∧
    ((p.enlarge S.realloc block n).1 = false → S.Overflows n) := by
  obtain ⟨block', hbuffer', hlength, hpre⟩ := h.block
  obtain rfl : block' = block := Option.some.inj (hbuffer'.symm.trans hbuffer)
  have hcap : ∀ c ∈ S.cap, c = maxSize ∧ ∀ size, (S.realloc size).isSome = true := by
    intro c hc
    have hcapped := (h.capped c hc).2
    rwa [hnoalloc] at hcapped
  by_cases hmax : maxSize / 2 < n ∧ maxSize < n
  · rw [PrintBuffer.enlarge, if_pos hmax]
    refine ⟨nofun, fun _ c hc => ?_⟩
    rw [(hcap c hc).1]
    exact hmax.2
  · rw [PrintBuffer.enlarge, if_neg hmax]
    have hmaxSize : maxSize = 2147483647 := rfl
    generalize hsize : (if maxSize / 2 < n then maxSize else n * 2) = size
    have hbounds : n ≤ size ∧ size ≤ maxSize := by
      split_ifs at hsize <;> omega
    cases hrealloc : S.realloc size with
    | none =>
        simp only [hrealloc]
        refine ⟨nofun, fun _ c hc => ?_⟩
        have hsome := (hcap c hc).2 size
        rw [hrealloc] at hsome
        cases hsome
    | some fresh =>
        simp only [hrealloc]
        refine ⟨fun _ => ⟨⟨⟨_, rfl, resized_length _ _ _, ?_⟩, h.offset, ?_, h.depth, h.format, ?_⟩,
          hbounds.1, ?_⟩, nofun⟩
        · exact prefix_resized hpre (by omega) fresh
        · refine .inr ?_
          rw [h.offset]
          exact hinside.trans_le hbounds.1
        · intro c hc
          refine ⟨hbounds.2, ?_⟩
          show if p.noalloc = true then _ else _
          rw [hnoalloc]
          exact hcap c hc
        · intro c hc
          rw [(hcap c hc).1]
          exact hbounds.1.trans hbounds.2

/-- Room is found for `n` bytes and a terminator exactly if they fit. -/
theorem At.ensure (h : S.At d pre next p) (n : ℕ) :
    ((p.ensure S.realloc n).1 = true → S.At d pre next (p.ensure S.realloc n).2 ∧
      pre.length + n + 1 ≤ (p.ensure S.realloc n).2.length ∧ S.Fits (pre.length + n + 1)) ∧
    ((p.ensure S.realloc n).1 = false → S.Overflows (pre.length + n + 1)) := by
  obtain ⟨block, hbuffer, hlength, hpre⟩ := h.block
  have hoffset := h.offset
  have hcapped := h.capped
  have hle : ∀ c ∈ S.cap, p.length ≤ c := by
    intro c hc
    obtain ⟨hmax, hcap⟩ := hcapped c hc
    split_ifs at hcap with hnoalloc
    · exact hcap.ge
    · rw [hcap.1]
      exact hmax
  have hgt : p.noalloc = true → ∀ c ∈ S.cap, c = p.length := by
    intro hnoalloc c hc
    have hcap := (hcapped c hc).2
    rwa [if_pos hnoalloc] at hcap
  simp only [PrintBuffer.ensure, hbuffer]
  have hvalid : ¬(0 < p.length ∧ p.length ≤ p.offset) := by
    rcases h.inside with hzero | hlt <;> omega
  rw [if_neg hvalid]
  by_cases hmax : maxSize < n
  · rw [if_pos hmax]
    refine ⟨nofun, fun _ c hc => ?_⟩
    have hcap : c ≤ maxSize := by
      obtain ⟨hlen, hcap⟩ := hcapped c hc
      split_ifs at hcap with hnoalloc
      · exact hcap.le.trans hlen
      · exact hcap.1.le
    omega
  · rw [if_neg hmax]
    by_cases hroom : n + (p.offset + 1) ≤ p.length
    · rw [if_pos hroom]
      have hlen : pre.length + n + 1 ≤ p.length := by omega
      exact ⟨fun _ => ⟨h, hlen, fun c hc => hlen.trans (hle c hc)⟩, nofun⟩
    · rw [if_neg hroom]
      by_cases hnoalloc : p.noalloc = true
      · rw [if_pos hnoalloc]
        refine ⟨nofun, fun _ c hc => ?_⟩
        have hc := hgt hnoalloc c hc
        omega
      · rw [if_neg hnoalloc]
        have hneeds : n + (p.offset + 1) = pre.length + n + 1 := by omega
        rw [hneeds] at hroom ⊢
        exact h.enlarge (by simpa using hnoalloc) hbuffer (by omega) (by omega)

/-- What is stored behind some of the bytes that are known is known. -/
theorem At.store (h : S.At d pre next p) (hroom : pre.length + next.length + w.length ≤ p.length) :
    ∃ p', p.store next.length w = some p' ∧ S.At d pre (next ++ w) p' ∧ p'.length = p.length := by
  obtain ⟨block, hbuffer, hlength, hpre⟩ := h.block
  have hoffset := h.offset
  have htake : block.take (p.offset + next.length) = pre ++ next := by
    rw [List.prefix_iff_eq_take.mp hpre, List.length_append, hoffset]
  refine ⟨{ p with
    buffer := some (block.take (p.offset + next.length) ++ w ++
      block.drop (p.offset + next.length + w.length)) }, ?_,
    ⟨⟨_, rfl, ?_, ?_⟩, h.offset, h.inside, h.depth, h.format, h.capped⟩, rfl⟩
  · rw [PrintBuffer.store, hbuffer, Option.bind_some, if_pos (by omega)]
  · show _ = p.length
    rw [List.length_append, List.length_append, List.length_take, List.length_drop]
    omega
  · rw [htake, ← List.append_assoc]
    exact List.prefix_append _ _

/-! ### Needs -/

/-- The program succeeds exactly if it can, and `n` bytes and a terminator fit behind what was
printed before. -/
def Needs (S : Setting) (depth : ℕ) (can : Prop) (a : Attempt PrintBuffer) (n : ℕ)
    (post : Bytes → PrintBuffer → Prop) : Prop :=
  ∀ pre, Attempt.Triple (S.At depth pre []) a
    (fun p => (can ∧ S.Fits (pre.length + n + 1)) ∧ post pre p)
    (fun _ => ¬can ∨ S.Overflows (pre.length + n + 1))

/-- `t` was printed, and the buffer goes on behind it. -/
def Behind (S : Setting) (depth : ℕ) (t pre : Bytes) (p : PrintBuffer) : Prop :=
  S.At depth (pre ++ t) [] p

/-- `t` was printed and terminated; the offset is somewhere in it. -/
def Written (S : Setting) (depth : ℕ) (t pre : Bytes) (p : PrintBuffer) : Prop :=
  ∃ done todo, t = done ++ todo ∧ S.At depth (pre ++ done) (todo ++ [nul]) p

variable {can can' : Prop} {a b : Attempt PrintBuffer} {post : Bytes → PrintBuffer → Prop}

theorem Needs.conseq {post' : Bytes → PrintBuffer → Prop} (h : S.Needs d can a n post)
    (hpost : ∀ pre p, post pre p → post' pre p) : S.Needs d can a n post' :=
  fun pre => (h pre).conseq (fun _ hs => hs) (fun p hs => ⟨hs.1, hpost pre p hs.2⟩) fun _ hs => hs

theorem Needs.fail : S.Needs d False Attempt.fail n post :=
  fun _ => .fail fun _ _ => .inl not_false

/-- The second program needs no less than the first. -/
theorem Needs.andThen (ha : S.Needs d can a n (S.Behind d' t)) (hb : S.Needs d' can' b m post)
    (hle : n ≤ t.length + m) :
    S.Needs d (can ∧ can') (a.andThen b) (t.length + m) fun pre => post (pre ++ t) := by
  intro pre
  have hsecond := hb (pre ++ t)
  have hlen : (pre ++ t).length + m + 1 = pre.length + (t.length + m) + 1 := by
    rw [List.length_append]
    omega
  rw [hlen] at hsecond
  have hfirst : Attempt.Triple (S.At d pre []) a (fun p => can ∧ S.At d' (pre ++ t) [] p)
      (fun _ => ¬(can ∧ can') ∨ S.Overflows (pre.length + (t.length + m) + 1)) := by
    refine (ha pre).conseq (fun _ hs => hs) (fun p hs => ⟨hs.1.1, hs.2⟩) fun p hs => ?_
    exact hs.imp (fun hno hboth => hno hboth.1) fun hover => hover.mono (by omega)
  refine hfirst.andThen fun s hs => ?_
  obtain ⟨r, s', hrun, hpost, hfailed⟩ := hsecond s hs.2
  refine ⟨r, s', hrun, fun hr => ?_, fun hr => ?_⟩
  · obtain ⟨⟨hcan', hfits⟩, hposts⟩ := hpost hr
    exact ⟨⟨⟨hs.1, hcan'⟩, hfits⟩, hposts⟩
  · exact (hfailed hr).imp (fun hno hboth => hno hboth.2) id

/-- What is not known to need anything needs no more than what comes before it. -/
theorem Needs.andDo {f : PrintBuffer → PrintBuffer} {post' : Bytes → PrintBuffer → Prop}
    (h : S.Needs d can a n post) (hf : ∀ pre p, post pre p → post' pre (f p)) :
    S.Needs d can (a.andDo f) n post' :=
  fun pre => ((h pre).conseq (fun _ hs => hs) (fun p hs => ⟨hs.1, hf pre p hs.2⟩) fun _ hs => hs).andDo

theorem Needs.reading {f : PrintBuffer → Attempt PrintBuffer}
    (h : ∀ p : PrintBuffer, p.depth = d → p.format = S.format → f p = a)
    (ha : S.Needs d can a n post) : S.Needs d can (Attempt.reading f) n post :=
  fun pre => (ha pre).reading fun p hp => h p hp.depth hp.format

/-- A program that needs what it asks `ensure` for first. -/
theorem needs_ensure
    (hfails : ∀ p p', p.ensure S.realloc n = (false, p') → a p = some (false, p'))
    (hsucceeds : ∀ pre p p', p.ensure S.realloc n = (true, p') → S.At d pre [] p' →
      pre.length + n + 1 ≤ p'.length → ∃ q, a p = some (true, q) ∧ post pre q) :
    S.Needs d True a n post := by
  intro pre p hp
  obtain ⟨hfits, hover⟩ := hp.ensure n
  cases hensure : p.ensure S.realloc n with
  | mk r p' =>
  rw [hensure] at hfits hover
  cases r with
  | false => exact ⟨false, p', hfails p p' hensure, nofun, fun _ => .inr (hover rfl)⟩
  | true =>
      obtain ⟨hp', hlen, hfits⟩ : S.At d pre [] p' ∧ pre.length + n + 1 ≤ p'.length ∧
        S.Fits (pre.length + n + 1) := hfits rfl
      obtain ⟨q, hrun, hq⟩ := hsucceeds pre p p' hensure hp' hlen
      exact ⟨true, q, hrun, fun _ => ⟨⟨trivial, hfits⟩, hq⟩, nofun⟩

theorem needs_put (hroom : w.length ≤ n + 1) {i : ℕ} (hi : i ≤ n) (hw : i ≤ w.length) :
    S.Needs d True (PrintBuffer.put S.realloc n w i) n fun pre =>
      S.At d (pre ++ w.take i) (w.drop i) := by
  apply needs_ensure
  · intro p p' hensure
    rw [PrintBuffer.put, hensure]
  · intro pre p p' hensure hp' hlen
    obtain ⟨q, hstore, hq, hqlen⟩ := hp'.store (w := w) (by rw [List.length_nil]; omega)
    rw [List.length_nil] at hstore
    refine ⟨{ q with offset := q.offset + i }, ?_, ?_⟩
    · rw [PrintBuffer.put, hensure]
      simp only [hstore, Option.map_some]
    · obtain ⟨block, hbuffer, hlength, hpre⟩ := hq.block
      have htake : (w.take i).length = i := by
        rw [List.length_take]
        omega
      have hoffset := hq.offset
      refine ⟨⟨block, hbuffer, hlength, ?_⟩, ?_, ?_, hq.depth, hq.format, hq.capped⟩
      · rw [List.append_assoc, List.take_append_drop]
        exact hpre
      · show q.offset + i = _
        rw [List.length_append, htake, hoffset]
      · refine .inr ?_
        show q.offset + i < q.length
        omega

/-- A piece behind which the printer goes on. -/
theorem needs_put_behind (ht : t.length ≤ n) (hw : t <+: w) (hroom : w.length ≤ n + 1) :
    S.Needs d True (PrintBuffer.put S.realloc n w t.length) n (S.Behind d t) := by
  refine (needs_put hroom ht hw.length_le).conseq fun pre p hp => ?_
  rw [← List.prefix_iff_eq_take.mp hw] at hp
  exact hp.nil_next

/-- A piece that is terminated. -/
theorem needs_put_written (ht : t.length ≤ n) :
    S.Needs d True (PrintBuffer.put S.realloc n (t ++ [nul]) 0) n (S.Written d t) := by
  refine (needs_put ?_ (Nat.zero_le _) (Nat.zero_le _)).conseq fun pre p hp => ⟨[], t, rfl, hp⟩
  rw [List.length_append, List.length_singleton]
  omega

theorem cString_append {t : Bytes} (ht : nul ∉ t) (s : Bytes) : cString (t ++ nul :: s) = t := by
  rw [cString, List.takeWhile_append_of_pos]
  · simp
  · intro c hc
    simp only [bne_iff_ne, ne_eq]
    rintro rfl
    exact ht hc

/-- `update_offset` goes to the end of what was terminated. -/
theorem Written.update (ht : nul ∉ t) (h : S.Written d t pre p) :
    ∃ p', PrintBuffer.updateOffset p = some (true, p') ∧ S.At d (pre ++ t) [nul] p' := by
  obtain ⟨done, todo, rfl, hp⟩ := h
  obtain ⟨block, hbuffer, hlength, hpre⟩ := hp.block
  have hoffset := hp.offset
  obtain ⟨s, hs⟩ := hpre
  have hdrop : block.drop p.offset = todo ++ nul :: s := by
    rw [← hs, hoffset]
    simp
  have htodo : nul ∉ todo := fun hmem => ht (List.mem_append_right _ hmem)
  have hlen : block.length = (pre ++ done).length + (todo.length + 1) + s.length := by
    rw [← hs]
    simp only [List.length_append, List.length_singleton]
  refine ⟨{ p with offset := p.offset + todo.length }, ?_, ⟨block, hbuffer, hlength, ?_⟩, ?_, ?_,
    hp.depth, hp.format, hp.capped⟩
  · rw [PrintBuffer.updateOffset, hbuffer]
    simp only [hdrop, cString_append htodo]
    rw [if_pos (by simp)]
  · exact ⟨s, by rw [← hs]; simp⟩
  · show p.offset + todo.length = _
    rw [hoffset]
    simp only [List.length_append]
    omega
  · refine .inr ?_
    show p.offset + todo.length < p.length
    omega

theorem Needs.update (h : S.Needs d can a n (S.Written d t)) (ht : nul ∉ t) :
    S.Needs d can (a.andThen PrintBuffer.updateOffset) n fun pre => S.At d (pre ++ t) [nul] := by
  intro pre
  refine (h pre).andThen fun p hp => ?_
  obtain ⟨p', hrun, hp'⟩ := hp.2.update ht
  exact ⟨true, p', hrun, fun _ => ⟨hp.1, hp'⟩, nofun⟩

end Setting

end OtiKiosk
