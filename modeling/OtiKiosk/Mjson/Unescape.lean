import OtiKiosk.Mjson.Strict

/-!
What `mjson_unescape` makes of the text between two quotes, and which texts it
gives back as they are. A text put between quotes without being escaped is read
back as itself only if it has neither a quote nor a backslash.
-/

namespace OtiKiosk

open Ascii Json

/-- The text a string stands for, whatever the room. -/
def decode : Bytes → Option Bytes
  | [] => some []
  | [c] => some [c]
  | c :: c' :: s =>
      if c = backslash then (mjsonEsc c').bind fun b => (decode s).map (b :: ·)
      else (decode (c' :: s)).map (c :: ·)

theorem decode_plain {c : UInt8} (hc : c ≠ backslash) (s : Bytes) :
    decode (c :: s) = (decode s).map (c :: ·) := by
  cases s with
  | nil => rfl
  | cons c' s => rw [decode, if_neg hc]

theorem decode_escape (c : UInt8) (s : Bytes) :
    decode (backslash :: c :: s) = (mjsonEsc c).bind fun b => (decode s).map (b :: ·) := by
  rw [decode, if_pos rfl]

/-- The texts that are decoded: an escape stands for its byte, and any other byte for itself, a
backslash only at the end. -/
theorem decode_induction {motive : Bytes → Bytes → Prop} (nil : motive [] [])
    (last : motive [backslash] [backslash])
    (escape : ∀ c b s w, mjsonEsc c = some b → motive s w → motive (backslash :: c :: s) (b :: w))
    (plain : ∀ c s w, c ≠ backslash → motive s w → motive (c :: s) (c :: w))
    {raw w : Bytes} (h : decode raw = some w) : motive raw w := by
  induction raw using decode.induct generalizing w with
  | case1 =>
      obtain rfl := Option.some.inj h
      exact nil
  | case2 c =>
      obtain rfl := Option.some.inj h
      by_cases hc : c = backslash
      · subst hc
        exact last
      · exact plain c [] [] hc nil
  | case3 c s ih =>
      rw [decode_escape, Option.bind_eq_some_iff] at h
      obtain ⟨b, hb, h⟩ := h
      rw [Option.map_eq_some_iff] at h
      obtain ⟨w', hw', rfl⟩ := h
      exact escape c b s w' hb (ih hw')
  | case4 c c' s hc ih =>
      rw [decode_plain hc, Option.map_eq_some_iff] at h
      obtain ⟨w', hw', rfl⟩ := h
      exact plain c (c' :: s) w' hc (ih hw')

theorem mjsonUnescapeLoop_eq_iff (s w : Bytes) (n : ℕ) :
    mjsonUnescapeLoop s n = (w, true) ↔ decode s = some w ∧ w.length < n := by
  induction s using decode.induct generalizing n w with
  | case1 =>
      simp only [mjsonUnescapeLoop, decode, Prod.mk.injEq, decide_eq_true_eq, Option.some.injEq]
      constructor
      · rintro ⟨rfl, hn⟩
        exact ⟨rfl, hn⟩
      · rintro ⟨rfl, hn⟩
        exact ⟨rfl, hn⟩
  | case2 c =>
      cases n with
      | zero => simp [mjsonUnescapeLoop]
      | succ n =>
          simp only [mjsonUnescapeLoop, decode, Prod.mk.injEq, decide_eq_true_eq, Option.some.injEq]
          constructor
          · rintro ⟨rfl, hn⟩
            exact ⟨rfl, by simpa using hn⟩
          · rintro ⟨rfl, hn⟩
            exact ⟨rfl, by simpa using hn⟩
  | case3 c' s ih =>
      cases n with
      | zero => simp [mjsonUnescapeLoop]
      | succ n =>
          simp only [mjsonUnescapeLoop, if_true, decode]
          cases mjsonEsc c' with
          | none => simp
          | some b =>
              simp only [Option.bind_some, Option.map_eq_some_iff, Prod.mk.injEq]
              constructor
              · rintro ⟨rfl, hok⟩
                obtain ⟨hw, hlen⟩ := (ih _ n).mp (Prod.ext rfl hok)
                exact ⟨⟨_, hw, rfl⟩, by simpa using hlen⟩
              · rintro ⟨⟨w', hw, rfl⟩, hlen⟩
                rw [(ih w' n).mpr ⟨hw, by simpa using hlen⟩]
                exact ⟨rfl, rfl⟩
  | case4 c c' s hc ih =>
      cases n with
      | zero => simp [mjsonUnescapeLoop]
      | succ n =>
          simp only [mjsonUnescapeLoop, hc, if_false, decode, Option.map_eq_some_iff, Prod.mk.injEq]
          constructor
          · rintro ⟨rfl, hok⟩
            obtain ⟨hw, hlen⟩ := (ih _ n).mp (Prod.ext rfl hok)
            exact ⟨⟨_, hw, rfl⟩, by simpa using hlen⟩
          · rintro ⟨⟨w', hw, rfl⟩, hlen⟩
            rw [(ih w' n).mpr ⟨hw, by simpa using hlen⟩]
            exact ⟨rfl, rfl⟩

/-- Where there is room, the text and a terminator are written; otherwise the call fails. -/
theorem mjsonUnescape_eq_iff (s w : Bytes) (n : ℕ) :
    mjsonUnescape s n = (w ++ [nul], some w.length) ↔ decode s = some w ∧ w.length < n := by
  rw [← mjsonUnescapeLoop_eq_iff, mjsonUnescape]
  obtain ⟨out, ok⟩ := mjsonUnescapeLoop s n
  cases ok with
  | false => simp
  | true =>
      simp only [if_true, Prod.mk.injEq, List.append_cancel_right_eq, Option.some.injEq, and_true]
      constructor
      · rintro ⟨rfl, -⟩
        rfl
      · rintro rfl
        exact ⟨rfl, rfl⟩

theorem mjsonUnescape_some {s w : Bytes} {n l : ℕ} (h : mjsonUnescape s n = (w, some l)) :
    ∃ v : Bytes, w = v ++ [nul] ∧ l = v.length ∧ decode s = some v ∧ v.length < n := by
  have hshape : ∃ v : Bytes, w = v ++ [nul] ∧ l = v.length := by
    simp only [mjsonUnescape] at h
    split_ifs at h
    · cases h
      exact ⟨_, rfl, rfl⟩
    · cases h
  obtain ⟨v, rfl, rfl⟩ := hshape
  exact ⟨v, rfl, rfl, (mjsonUnescape_eq_iff _ _ _).mp h⟩

/-- The string at a path, whatever the room; nothing if there is none, or if it is spelled with an
escape that is not known. -/
def mjsonText (s : Bytes) (len : ℕ) (path : Bytes) : Option Bytes :=
  let f := mjsonFind s len path
  if f.tok = .string then decode ((s.drop (f.off + 1)).take (f.len - 2)) else none

theorem mjsonGetString_eq_iff (s : Bytes) (len : ℕ) (path w : Bytes) (n : ℕ) :
    mjsonGetString s len path n = (w ++ [nul], some w.length) ↔
      mjsonText s len path = some w ∧ w.length < n := by
  by_cases htok : (mjsonFind s len path).tok = .string
  · simp only [mjsonGetString, mjsonText, htok, ne_eq, not_true_eq_false, if_false, if_true]
    exact mjsonUnescape_eq_iff _ w n
  · simp [mjsonGetString, mjsonText, htok]

theorem mjsonText_of {s : Bytes} {len : ℕ} {path : Bytes} {u : Option Located}
    (hfind : mjsonFind s len path = .of u) (hu : ∀ v, u = some v → v.Member s) :
    mjsonText s len path = (u.bind fun v => v.value.string?).bind decode := by
  simp only [mjsonText, hfind]
  cases u with
  | none => rfl
  | some v =>
      have hmember := hu v rfl
      obtain ⟨i, v⟩ := v
      cases v with
      | string raw =>
          have hraw := hmember.raw_eq rfl
          simp only [Found.of, Phrase.tok, if_true, Option.bind_some, Phrase.string?]
          rw [hraw]
      | node b items => cases b <;> rfl
      | true => rfl
      | false => rfl
      | null => rfl
      | number raw => rfl

/-! ### Terminators -/

theorem mjsonEscOf_nul : (mjsonEscOf nul).isSome = false := by decide +kernel

/-- No string that `mjson` accepts has a terminator in it. -/
theorem mjsonPassString_noNul {s : Bytes} {len n : ℕ} (h : mjsonPassString s len = some n) :
    nul ∉ s.take n := by
  refine mjsonPassString_induction (motive := fun s _ n => nul ∉ s.take n) ?_ ?_ ?_ h
  · intro s len
    exact List.not_mem_nil
  · intro c s len m hc ih
    have hne : nul ≠ c := by
      rintro rfl
      rw [mjsonEscOf_nul] at hc
      cases hc
    simp only [List.take_succ_cons, List.mem_cons, not_or]
    exact ⟨by decide, hne, ih⟩
  · intro c s len m hesc hnul hquote ih
    simp only [List.take_succ_cons, List.mem_cons, not_or]
    exact ⟨Ne.symm hnul, ih⟩

theorem lexicon_noNul {raw : Bytes} (h : mjsonLexicon.string raw) : nul ∉ raw := by
  have hpass := mjsonPassString_noNul h
  rwa [List.take_left] at hpass

theorem mem_of_mjsonEsc {c b : UInt8} (h : mjsonEsc c = some b) : (c, b) ∈ escapes.zip escaped := by
  rw [mjsonEsc, List.lookup_eq_some_iff] at h
  obtain ⟨l, l', heq, -⟩ := h
  rw [heq]
  exact List.mem_append_right _ List.mem_cons_self

theorem mjsonEsc_ne_nul {c b : UInt8} (h : mjsonEsc c = some b) : b ≠ nul := by
  have hcases : ∀ p ∈ escapes.zip escaped, p.2 ≠ nul := by decide +kernel
  exact hcases _ (mem_of_mjsonEsc h)

/-- Nor is one decoded into it. -/
theorem decode_noNul {raw w : Bytes} (h : decode raw = some w) (hraw : nul ∉ raw) : nul ∉ w := by
  revert hraw
  refine decode_induction (motive := fun raw w => nul ∉ raw → nul ∉ w) ?_ ?_ ?_ ?_ h
  · exact id
  · exact id
  · intro c b s w hb ih hraw
    simp only [List.mem_cons, not_or] at hraw ⊢
    exact ⟨(mjsonEsc_ne_nul hb).symm, ih hraw.2.2⟩
  · intro c s w hc ih hraw
    rw [List.mem_cons, not_or] at hraw ⊢
    exact ⟨hraw.1, ih hraw.2⟩

/-! ### Texts that need no escape -/

/-- A text that may stand between quotes as it is. -/
def IsPlain (s : Bytes) : Prop := ∀ c ∈ s, 32 ≤ c ∧ c ≠ quote ∧ c ≠ backslash

instance (s : Bytes) : Decidable (IsPlain s) := inferInstanceAs (Decidable (∀ c ∈ s, _))

theorem IsPlain.chars {s : Bytes} (h : IsPlain s) : IsChars s := by
  induction s with
  | nil => exact .nil
  | cons c s ih =>
      obtain ⟨h32, hquote, hback⟩ := h c (by simp)
      exact .cons (.plain h32 hquote hback) (ih fun d hd => h d (by simp [hd]))

theorem IsPlain.decode_eq {s : Bytes} (h : IsPlain s) : decode s = some s := by
  induction s with
  | nil => rfl
  | cons c s ih =>
      have hback := (h c (by simp)).2.2
      rw [decode_plain hback, ih fun d hd => h d (by simp [hd])]
      rfl

/-- Characters spelled without a backslash are bytes that need no escape. -/
theorem Json.IsChars.plain {s : Bytes} (h : IsChars s) (hback : backslash ∉ s) : IsPlain s := by
  induction h with
  | nil => exact nofun
  | @cons u s hu _ ih =>
      rw [List.mem_append, not_or] at hback
      have hrest := ih hback.2
      cases hu with
      | @plain c h32 hquote hc =>
          intro d hd
          rcases List.mem_cons.mp hd with rfl | hd
          · exact ⟨h32, hquote, hc⟩
          · exact hrest d hd
      | escape hc => exact (hback.1 (by simp)).elim
      | unicode ha hb hc hd => exact (hback.1 (by simp)).elim

/-! ### Texts put between quotes as they are -/

/-- No escape stands for a backslash but the backslash. -/
theorem mjsonEsc_backslash {c : UInt8} (h : mjsonEsc c = some backslash) : c = backslash := by
  have hcases : ∀ p ∈ escapes.zip escaped, p.2 = backslash → p.1 = backslash := by decide +kernel
  exact hcases _ (mem_of_mjsonEsc h) rfl

/-- What `decode` gives back starts with the byte it was given, unless that is an escape. -/
theorem decode_head {s w : Bytes} (h : decode (backslash :: s) = some (backslash :: w)) :
    s = [] ∧ w = [] ∨ ∃ t, s = backslash :: t ∧ decode t = some w := by
  cases s with
  | nil =>
      simp only [decode, Option.some.injEq, List.cons.injEq, true_and] at h
      exact .inl ⟨rfl, h.symm⟩
  | cons c s =>
      rw [decode_escape, Option.bind_eq_some_iff] at h
      obtain ⟨b, hb, h⟩ := h
      rw [Option.map_eq_some_iff] at h
      obtain ⟨w', hw', heq⟩ := h
      obtain ⟨rfl, rfl⟩ := List.cons.inj heq
      exact .inr ⟨s, by rw [mjsonEsc_backslash hb], hw'⟩

/-- A backslash is read as one only if it is escaped by another. -/
theorem read_back_backslash {arg rest w : Bytes} {n : ℕ}
    (hpass : mjsonPassString (backslash :: (arg ++ quote :: rest))
      ((arg ++ quote :: rest).length + 1) = some n)
    (hread : decode ((backslash :: (arg ++ quote :: rest)).take n) = some (backslash :: w)) :
    ∃ arg' m, arg = backslash :: arg' ∧
      mjsonPassString (arg' ++ quote :: rest) (arg' ++ quote :: rest).length = some m ∧
      decode ((arg' ++ quote :: rest).take m) = some w := by
  cases arg with
  | nil =>
      -- the closing quote is read as an escaped one
      rw [List.nil_append, List.length_cons, mjsonPassString_escape rfl,
        Option.map_eq_some_iff] at hpass
      obtain ⟨m, -, rfl⟩ := hpass
      rcases decode_head hread with ⟨h, -⟩ | ⟨t, h, -⟩ <;> cases h
  | cons d arg =>
      by_cases hesc : (mjsonEscOf d).isSome = true
      · rw [List.cons_append, List.length_cons, mjsonPassString_escape hesc,
          Option.map_eq_some_iff] at hpass
        obtain ⟨m, hm, rfl⟩ := hpass
        rcases decode_head hread with ⟨h, -⟩ | ⟨t, h, hw⟩
        · cases h
        · obtain ⟨rfl, rfl⟩ := List.cons.inj h
          exact ⟨arg, m, rfl, hm, hw⟩
      · rw [mjsonPassString_plain (fun _ => by simpa using hesc) (by decide) (by decide),
          Option.map_eq_some_iff] at hpass
        obtain ⟨m, hm, rfl⟩ := hpass
        have hm0 : m ≠ 0 := by
          rintro rfl
          obtain ⟨-, raw, t, heq, hlen, -⟩ := mjsonPassString_some hm
          obtain rfl := List.length_eq_zero_iff.mp hlen
          obtain ⟨rfl, -⟩ := List.cons.inj heq
          exact hesc rfl
        obtain ⟨m, rfl⟩ := Nat.exists_eq_succ_of_ne_zero hm0
        rcases decode_head hread with ⟨h, -⟩ | ⟨t, h, -⟩
        · cases h
        · obtain ⟨rfl, -⟩ := List.cons.inj h
          exact (hesc rfl).elim

/-- Every backslash of the argument is taken for the start of an escape. What is read falls behind
by one backslash each time, and can never catch up. -/
theorem read_back_of_quoted {arg rest : Bytes} {j n : ℕ}
    (hpass : mjsonPassString (arg ++ quote :: rest) (arg ++ quote :: rest).length = some n)
    (hread : decode ((arg ++ quote :: rest).take n) = some (List.replicate j backslash ++ arg)) :
    j = 0 ∧ quote ∉ arg ∧ backslash ∉ arg ∧ n = arg.length := by
  induction hk : arg.length using Nat.strong_induction_on generalizing arg n j with
  | _ k ih =>
    cases arg with
    | nil =>
        rw [List.nil_append, List.length_cons, mjsonPassString_quote, Option.some.injEq] at hpass
        subst hpass
        simp only [List.take_zero, decode, List.append_nil, Option.some.injEq] at hread
        have hj : 0 = j := by simpa using congrArg List.length hread
        exact ⟨hj.symm, by simp, by simp, hk⟩
    | cons c arg =>
        rw [List.length_cons] at hk
        rw [List.cons_append] at hpass hread
        by_cases hquote : c = quote
        · -- the string ends here, and nothing was read
          subst hquote
          rw [List.length_cons, mjsonPassString_quote, Option.some.injEq] at hpass
          subst hpass
          have hlen := congrArg (Option.map List.length) hread
          simp [decode] at hlen
        by_cases hback : c = backslash
        · subst hback
          have hhead : List.replicate j backslash ++ backslash :: arg =
              backslash :: (List.replicate j backslash ++ arg) := by
            rw [List.append_cons, ← List.replicate_succ', List.replicate_succ, List.cons_append]
          rw [hhead] at hread
          obtain ⟨arg', m, rfl, hm, hw⟩ := read_back_backslash hpass hread
          rw [List.append_cons (List.replicate j backslash), ← List.replicate_succ'] at hw
          have hno := (ih arg'.length (by simp only [List.length_cons] at hk; omega) hm hw rfl).1
          exact absurd hno (Nat.succ_ne_zero j)
        · have hnul : c ≠ nul := by
            rintro rfl
            rw [mjsonPassString.eq_def] at hpass
            simp +decide at hpass
          rw [List.length_cons, mjsonPassString_plain (fun h => (hback h).elim) hnul hquote,
            Option.map_eq_some_iff] at hpass
          obtain ⟨m, hm, rfl⟩ := hpass
          rw [List.take_succ_cons, decode_plain hback, Option.map_eq_some_iff] at hread
          obtain ⟨w, hw, heq⟩ := hread
          cases j with
          | succ j =>
              rw [List.replicate_succ, List.cons_append, List.cons.injEq] at heq
              exact (hback heq.1).elim
          | zero =>
              obtain ⟨-, hw'⟩ := List.cons.inj heq
              rw [hw'] at hw
              obtain ⟨-, hq, hb, hlen⟩ := ih arg.length (by omega) (j := 0) hm hw rfl
              refine ⟨rfl, ?_, ?_, by rw [hlen, ← hk]⟩
              · simp [hq, Ne.symm hquote]
              · simp [hb, Ne.symm hback]

end OtiKiosk
