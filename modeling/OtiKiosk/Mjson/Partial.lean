import OtiKiosk.Mjson.Unescape

/-!
Lookups in a text of which only the beginning is known. The tokenizer and the
lookup go along the known members, and what they do at the string behind them
depends on what follows. `find_string` is about a string in an object in an
object.
-/

namespace OtiKiosk

open Ascii Json

/-- Where the tokenizer and the lookup stand. -/
structure Cursor where
  off : ℕ
  nesting : List Bracket
  expecting : Expecting
  lookup : GetData

def Cursor.run (s : Bytes) (c : Cursor) : ℤ × List Event :=
  scan (s.drop c.off) c.off (s.length - c.off) c.nesting c.expecting

/-- The tokenizer comes from one place to another, and takes the lookup along. -/
def Goes (s : Bytes) (c c' : Cursor) : Prop :=
  ∃ es, c.run s = emits es (c'.run s) ∧ es.foldl (mjsonGetCb s) c.lookup = c'.lookup

theorem Goes.refl {s : Bytes} (c : Cursor) : Goes s c c := ⟨[], rfl, rfl⟩

theorem Goes.trans {s : Bytes} {c c' c'' : Cursor} (h : Goes s c c') (h' : Goes s c' c'') :
    Goes s c c'' := by
  obtain ⟨es, hrun, hlookup⟩ := h
  obtain ⟨es', hrun', hlookup'⟩ := h'
  refine ⟨es ++ es', ?_, ?_⟩
  · rw [hrun, hrun', emits_emits]
  · rw [List.foldl_append, hlookup, hlookup']

theorem drop_of_prefix {t s : Bytes} {i : ℕ} (h : t <+: s.drop i) :
    s.drop i = t ++ s.drop (i + t.length) ∧ s.length - i = t.length + (s.length - (i + t.length)) := by
  obtain ⟨u, hu⟩ := h
  have hdrop : s.drop (i + t.length) = u := by
    rw [← List.drop_drop, ← hu, List.drop_left]
  have hlen := congrArg List.length hu
  rw [List.length_append, List.length_drop] at hlen
  rw [hdrop]
  refine ⟨hu.symm, ?_⟩
  by_cases hzero : t.length = 0
  · omega
  · omega

section

variable {s : Bytes} {i : ℕ} {g : GetData} {N : List Bracket} {n : Bytes} {names : List Bytes}

theorem Goes.open (hs : [lbrace] <+: s.drop i) (hN : N.length < mjsonMaxDepth)
    (h : Seeking g (n :: names) 0) :
    ∃ g', Seeking g' (n :: names) 1 ∧ Goes s ⟨i, N, .value, g⟩ ⟨i + 1, .curly :: N, .key, g'⟩ := by
  obtain ⟨hdrop, hlen⟩ := drop_of_prefix hs
  refine ⟨_, h.open s .curly i 1, [⟨.object, i, 1⟩], ?_, rfl⟩
  simp only [Cursor.run]
  rw [hdrop, hlen, scan_turn (by simp) rfl, turn]
  exact (congrArg _ (valueCase_open _ _ N .curly)).trans (by
    rw [follow_openTurn hN, List.singleton_append, List.drop_one, List.tail_cons,
      List.length_singleton, Nat.add_sub_cancel_left]
    rfl)

/-- `scan_label` for names. -/
theorem scan_key {label : Label .curly} (hlabel : label.WF mjsonLexicon) (s : Bytes) (i a : ℕ)
    (N : List Bracket) :
    scan (label.text ++ s) i (label.text.length + a) (.curly :: N) .key =
      emits (label.events i) (scan s (i + label.text.length) a (.curly :: N) .value) :=
  scan_label s i a N hlabel

/-- A name that is looked for. -/
theorem Goes.name {w w₁ w₂ : Bytes} (hn : IsName n) (hw : IsBlank w)
    (hlabel : (Label.key n w₁ w₂).WF mjsonLexicon)
    (hs : w ++ (Label.key n w₁ w₂).text <+: s.drop i) (h : Seeking g (n :: names) 1) :
    ∃ g', Seeking g' names 0 ∧ Goes s ⟨i, .curly :: N, .key, g⟩
      ⟨i + (w.length + (Label.key n w₁ w₂).text.length), .curly :: N, .value, g'⟩ := by
  obtain ⟨hdrop, hlen⟩ := drop_of_prefix hs
  obtain ⟨-, hkey⟩ := append_prefix_drop hs
  obtain ⟨hkey, -⟩ := append_prefix_drop hkey
  have hstep := h.step hn hkey rfl
  rw [List.length_append] at hdrop hlen
  refine ⟨_, hstep, (Label.key n w₁ w₂).events (i + w.length), ?_, ?_⟩
  · simp only [Cursor.run]
    rw [hdrop, hlen, List.append_assoc, Nat.add_assoc, scan_blanks hw,
      scan_key hlabel, Nat.add_assoc]
  · simp only [Label.events, List.foldl_cons, List.foldl_nil]
    rw [getCb_colon hstep.tok]

/-- A member and the comma after it. -/
structure Lead where
  blank : Bytes
  name : Bytes
  blank₁ : Bytes
  blank₂ : Bytes
  value : Value

def Lead.label (l : Lead) : Label .curly := .key l.name l.blank₁ l.blank₂

def Lead.text (l : Lead) : Bytes := l.blank ++ (l.label.text ++ (l.value.text ++ [comma]))

/-- A member that does not get in the way of a lookup, below `depth` open brackets. -/
structure Lead.Passes (l : Lead) (n : Bytes) (depth : ℕ) : Prop where
  blank : IsBlank l.blank
  label : l.label.WF mjsonLexicon
  value : l.value.WF mjsonLexicon
  depth : l.value.depth + depth ≤ mjsonMaxDepth
  name : l.name ≠ n

theorem stops_comma : Stops comma := by
  rw [stops_iff]
  decide

def Lead.events (l : Lead) (i : ℕ) : List Event :=
  let j := i + l.blank.length
  let k := j + l.label.text.length
  l.label.events j ++ (l.value.events k ++ [⟨.comma, k + l.value.text.length, 1⟩])

theorem scan_lead {l : Lead} (hl : l.Passes n (N.length + 1)) (t : Bytes) (i a : ℕ) :
    scan (l.text ++ t) i (l.text.length + a) (.curly :: N) .key =
      emits (l.events i) (scan t (i + l.text.length) a (.curly :: N) .key) := by
  have hread := reads l.value (comma :: t) (i + l.blank.length + l.label.text.length) (a + 1)
    (.curly :: N) hl.value hl.depth (by
      rintro - d hd
      rw [List.head?_cons, Option.mem_some_iff] at hd
      exact hd ▸ stops_comma)
  have htext : l.text ++ t =
      l.blank ++ (l.label.text ++ (l.value.text ++ comma :: t)) := by simp [Lead.text]
  have hlen : l.text.length =
      l.blank.length + (l.label.text.length + (l.value.text.length + 1)) := by simp [Lead.text]
  rw [htext, hlen, show l.blank.length + (l.label.text.length + (l.value.text.length + 1)) + a =
    l.blank.length + (l.label.text.length + (l.value.text.length + (a + 1))) by omega,
    scan_blanks hl.blank, scan_key hl.label, hread, resume, if_neg (List.cons_ne_nil _ _),
    scan_comma]
  simp only [emits_emits, Lead.events, Nat.add_assoc]
  rfl

theorem Goes.lead {l : Lead} (hn : IsName n) (hl : l.Passes n (N.length + 1))
    (hs : l.text <+: s.drop i) (h : Seeking g (n :: names) 1) :
    ∃ g', Seeking g' (n :: names) 1 ∧
      Goes s ⟨i, .curly :: N, .key, g⟩ ⟨i + l.text.length, .curly :: N, .key, g'⟩ := by
  obtain ⟨hdrop, hlen⟩ := drop_of_prefix hs
  obtain ⟨-, hkey⟩ := append_prefix_drop hs
  obtain ⟨hkey, -⟩ := append_prefix_drop hkey
  obtain ⟨hkey, -⟩ := append_prefix_drop hkey
  have hno : ¬g.KeyMatches s (i + l.blank.length) (l.name.length + 2) := fun hm =>
    hl.name ((h.keyMatches_iff hn hkey).mp hm).2
  have hskip := fun j => skip l.value s j h.tok
    (by have := h.depth; simp only [Part.inner]; omega)
  refine ⟨_, h.comma s (i + l.blank.length + l.label.text.length + l.value.text.length) 1,
    l.events i, ?_, ?_⟩
  · simp only [Cursor.run]
    rw [hdrop, hlen, scan_lead hl]
  · simp only [Lead.events, Lead.label, Label.events, List.foldl_append, List.foldl_cons,
      List.foldl_nil]
    rw [getCb_key h.tok hno, getCb_colon h.tok, hskip]

theorem Goes.leads {ls : List Lead} (hn : IsName n) (hls : ∀ l ∈ ls, l.Passes n (N.length + 1))
    (hs : ls.flatMap Lead.text <+: s.drop i) (h : Seeking g (n :: names) 1) :
    ∃ g', Seeking g' (n :: names) 1 ∧ Goes s ⟨i, .curly :: N, .key, g⟩
      ⟨i + (ls.flatMap Lead.text).length, .curly :: N, .key, g'⟩ := by
  induction ls generalizing i g with
  | nil => exact ⟨g, h, Goes.refl _⟩
  | cons l ls ih =>
      rw [List.flatMap_cons] at hs ⊢
      obtain ⟨hl, hrest⟩ := append_prefix_drop hs
      obtain ⟨g₁, hseek₁, hgoes₁⟩ := Goes.lead hn (hls l (by simp)) hl h
      obtain ⟨g₂, hseek₂, hgoes₂⟩ := ih (fun l' hl' => hls l' (by simp [hl'])) hrest hseek₁
      rw [List.length_append, ← Nat.add_assoc]
      exact ⟨g₂, hseek₂, hgoes₁.trans hgoes₂⟩

/-- The members before the one that is looked for, and its name. -/
theorem Goes.descend {ls : List Lead} {w w₁ w₂ : Bytes} (hn : IsName n)
    (hls : ∀ l ∈ ls, l.Passes n (N.length + 1)) (hw : IsBlank w)
    (hlabel : (Label.key n w₁ w₂).WF mjsonLexicon)
    (hs : ls.flatMap Lead.text ++ (w ++ (Label.key n w₁ w₂).text) <+: s.drop i)
    (h : Seeking g (n :: names) 1) :
    ∃ g', Seeking g' names 0 ∧ Goes s ⟨i, .curly :: N, .key, g⟩
      ⟨i + (ls.flatMap Lead.text ++ (w ++ (Label.key n w₁ w₂).text)).length, .curly :: N, .value,
        g'⟩ := by
  obtain ⟨hleads, hname⟩ := append_prefix_drop hs
  obtain ⟨g₁, hseek₁, hgoes₁⟩ := Goes.leads hn hls hleads h
  obtain ⟨g₂, hseek₂, hgoes₂⟩ := Goes.name (N := N) hn hw hlabel hname hseek₁
  refine ⟨g₂, hseek₂, ?_⟩
  rw [List.length_append, List.length_append, ← Nat.add_assoc]
  exact hgoes₁.trans hgoes₂

/-- Where the string ends that is looked for. -/
theorem Goes.string {path t : Bytes}
    (h : Goes s ⟨0, [], .value, .start (dollar :: path)⟩ ⟨i, .curly :: N, .value, g⟩)
    (hg : Seeking g [] 0) (hs : s.drop i = quote :: t) (hret : 0 ≤ (mjson s s.length).1) :
    ∃ k, mjsonPassString t t.length = some k ∧
      mjsonFind s s.length (dollar :: path) = ⟨.string, i, k + 2⟩ := by
  obtain ⟨es, hrun, hlookup⟩ := h
  have hlen : s.length - i = t.length + 1 := by
    have := congrArg List.length hs
    simpa using this
  have hmjson : mjson s s.length = emits es (scan (quote :: t) i (t.length + 1) (.curly :: N) .value) := by
    rw [mjson_eq_scan]
    simp only [Cursor.run, hs, hlen] at hrun
    exact hrun
  have htrue : ascii "true" = [116, 114, 117, 101] := by decide
  have hnull : ascii "null" = [110, 117, 108, 108] := by decide
  have hfalse : ascii "false" = [102, 97, 108, 115, 101] := by decide
  rw [scan_turn (Nat.succ_ne_zero _) rfl, turn] at hmjson
  cases hpass : mjsonPassString t t.length with
  | none =>
      have hvalue : valueCase (quote :: t) (t.length + 1) (.curly :: N) =
          .error mjsonErrorInvalidInput := by
        simp +decide [valueCase, htrue, hnull, hfalse, isDigit, hpass]
      rw [hmjson, hvalue] at hret
      cases hret
  | some k =>
      have hvalue : valueCase (quote :: t) (t.length + 1) (.curly :: N) =
          valueTurn (.curly :: N) .string (k + 2) := by
        simp +decide [valueCase, htrue, hnull, hfalse, isDigit, hpass]
      refine ⟨k, rfl, ?_⟩
      rw [hvalue] at hmjson
      simp only [follow_valueTurn, emits_emits] at hmjson
      simp only [mjsonFind, hmjson, emits_fst]
      rw [hmjson, emits_fst] at hret
      rw [if_neg (by simp), if_neg (not_lt.mpr hret)]
      have htarget := seek_scalar .string rfl s i (k + 2) hg
      simp only at hlookup
      simp only [emits, List.foldl_append, hlookup, List.foldl_cons, List.foldl_nil]
      have htok : (mjsonGetCb s g ⟨.string, i, k + 2⟩).tok ≠ .invalid := by
        have := congrArg Found.tok htarget
        simp only [GetData.found] at this
        rw [this]
        intro hinvalid
        cases hinvalid
      rw [found_stays htok]
      exact htarget

end

/-- **A string in an object in an object**, behind known members: a text that `mjson` accepts goes
on with a string there, and the lookup of its path finds it. -/
theorem find_string {n m : Bytes} (hn : IsName n) (hm : IsName m) {outer inner : List Lead}
    (houter : ∀ l ∈ outer, l.Passes n 1) (hinner : ∀ l ∈ inner, l.Passes m 2)
    {w w₁ w₂ w' w₃ w₄ : Bytes} (hw : IsBlank w) (hw' : IsBlank w')
    (hlabel : (Label.key n w₁ w₂).WF mjsonLexicon) (hlabel' : (Label.key m w₃ w₄).WF mjsonLexicon)
    {s t : Bytes}
    (hs : s = lbrace :: (outer.flatMap Lead.text ++ (w ++ (Label.key n w₁ w₂).text) ++ (lbrace ::
      (inner.flatMap Lead.text ++ (w' ++ (Label.key m w₃ w₄).text) ++ (quote :: t)))))
    (hret : 0 ≤ (mjson s s.length).1) :
    ∃ k i, mjsonPassString t t.length = some k ∧ s.drop (i + 1) = t ∧
      mjsonFind s s.length (pathOf [n, m]) = ⟨.string, i, k + 2⟩ := by
  generalize hA : outer.flatMap Lead.text ++ (w ++ (Label.key n w₁ w₂).text) = A at hs
  generalize hB : inner.flatMap Lead.text ++ (w' ++ (Label.key m w₃ w₄).text) = B at hs
  have hall : [lbrace] ++ (A ++ ([lbrace] ++ (B ++ quote :: t))) <+: s.drop 0 := by
    rw [List.drop_zero, hs]
    exact ⟨[], by simp⟩
  obtain ⟨h₁, hall⟩ := append_prefix_drop hall
  obtain ⟨h₂, hall⟩ := append_prefix_drop hall
  obtain ⟨h₃, hall⟩ := append_prefix_drop hall
  obtain ⟨h₄, -⟩ := append_prefix_drop hall
  obtain ⟨g₁, hseek₁, hgoes₁⟩ := Goes.open (N := []) h₁ (by decide) (Seeking.start [n, m])
  obtain ⟨g₂, hseek₂, hgoes₂⟩ := Goes.descend (N := []) hn houter hw hlabel (hA ▸ h₂) hseek₁
  rw [hA] at hgoes₂
  obtain ⟨g₃, hseek₃, hgoes₃⟩ := Goes.open (N := [.curly]) h₃ (by decide) hseek₂
  obtain ⟨g₄, hseek₄, hgoes₄⟩ := Goes.descend (N := [.curly]) hm hinner hw' hlabel' (hB ▸ h₄) hseek₃
  rw [hB] at hgoes₄
  have hdrop : s.drop (0 + 1 + A.length + 1 + B.length) = quote :: t := by
    rw [hs, show 0 + 1 + A.length + 1 + B.length = 1 + (A.length + (1 + B.length)) by omega,
      ← List.drop_drop, ← List.drop_drop, ← List.drop_drop]
    simp
  obtain ⟨k, hpass, hfind⟩ := Goes.string (((hgoes₁.trans hgoes₂).trans hgoes₃).trans hgoes₄) hseek₄
    hdrop hret
  refine ⟨k, 0 + 1 + A.length + 1 + B.length, hpass, ?_, hfind⟩
  rw [← List.drop_drop, hdrop]
  rfl

end OtiKiosk
