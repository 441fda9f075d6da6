import OtiKiosk.Client.Replies
import OtiKiosk.Mjson.Partial

/-!
The texts of the commands that are answered by a truth value are texts of trees:
an object with the version, the method, the parameters and the id. The tree is
well formed when the text parameters are; the numbers always are.
-/

namespace OtiKiosk

open Ascii Json

/-! ### Numbers -/

theorem digit_isDigit : ∀ d, d < 10 → isDigit (48 + UInt8.ofNat d) = true := by decide

theorem digit_eq_zero : ∀ d, d < 10 → 48 + UInt8.ofNat d = 48 → d = 0 := by decide

theorem natText_digits (n : ℕ) : IsDigits (natText n) := by
  rw [natText]
  split_ifs with h
  · exact ⟨nofun, by decide⟩
  · constructor
    · simp [Nat.digits_eq_nil_iff_eq_zero, h]
    · intro c hc
      obtain ⟨d, hd, rfl⟩ := List.mem_map.mp hc
      exact digit_isDigit d (Nat.digits_lt_base (by decide) (List.mem_reverse.mp hd))

/-- A decimal text starts with a zero only if it is zero. -/
theorem natText_head (n : ℕ) : natText n = [48] ∨ (natText n).head? ≠ some 48 := by
  rw [natText]
  split_ifs with h
  · exact .inl rfl
  · right
    have hne : Nat.digits 10 n ≠ [] := by simp [Nat.digits_eq_nil_iff_eq_zero, h]
    have hlast := Nat.getLast_digit_ne_zero 10 h
    have hlt := Nat.digits_lt_base (by decide) (List.getLast_mem hne)
    rw [List.head?_map, List.head?_reverse, List.getLast?_eq_some_getLast hne, Option.map_some]
    intro heq
    rw [Option.some.injEq] at heq
    exact hlast (digit_eq_zero _ hlt heq)

def intNumeral (v : ℤ) : Numeral where
  sign := if v < 0 then [minus] else []
  int := natText v.natAbs
  frac := []
  exp := []
  sign_eq := by split_ifs <;> simp
  int_eq := (natText_head v.natAbs).imp_right fun h => ⟨natText_digits _, h⟩
  frac_eq := .inl rfl
  exp_eq := .inl rfl

theorem intText_eq (v : ℤ) : intText v = (intNumeral v).text := by
  simp only [intText, Numeral.text, intNumeral, List.append_nil]
  split_ifs <;> rfl

/-! ### Parameters -/

inductive Param
  | int (v : BitVec 32)
  | text (s : CString)
  | bool (b : Bool)

namespace Param

/-- What the template has in the place of the value. -/
def slot : Param → Bytes
  | .int _ => ascii "%d"
  | .text _ => quoted (ascii "%s")
  | .bool _ => ascii "%s"

def arg : Param → FormatArg
  | .int v => .int v
  | .text s => .str s
  | .bool b => .str (boolText b)

def value : Param → Value
  | .int v => .number (intText v.toInt)
  | .text s => .string s.bytes
  | .bool b => if b then .true else .false

/-- The parameter needs no escape. -/
def Plain : Param → Prop
  | .text s => IsPlain s.bytes
  | _ => True

theorem value_wf {p : Param} (h : p.Plain) : p.value.WF strict := by
  cases p with
  | int v => exact ⟨intNumeral v.toInt, intText_eq _⟩
  | text s => exact IsPlain.chars h
  | bool b => cases b <;> trivial

theorem value_depth (p : Param) : p.value.depth = 0 := by
  cases p with
  | bool b => cases b <;> rfl
  | _ => rfl

end Param

def joined (w : Bytes) : List (Bytes × Bytes) → Bytes
  | [] => w
  | (name, v) :: ms =>
      w ++ (quoted name ++ colon :: (v ++ if ms = [] then [] else comma :: joined [space] ms))

def paramItems (w : Bytes) : List (Bytes × Param) → Phrase (.items .curly)
  | [] => .nil w
  | (name, p) :: ps =>
      .item w (.key name [] []) p.value
        (if ps = [] then .stop [] else .more [] (paramItems [space] ps))

theorem paramItems_text (w : Bytes) (ps : List (Bytes × Param)) :
    (paramItems w ps).text = joined w (ps.map fun p => (p.1, p.2.value.text)) := by
  induction ps generalizing w with
  | nil => rfl
  | cons p ps ih =>
      obtain ⟨name, p⟩ := p
      cases ps with
      | nil => simp [paramItems, joined, Phrase.text, Label.text]
      | cons q ps =>
          rw [List.map_cons, joined, if_neg (by simp), ← ih, paramItems,
            if_neg (List.cons_ne_nil q ps)]
          simp [Phrase.text, Label.text]

theorem paramItems_wf {w : Bytes} (hw : IsBlank w) {ps : List (Bytes × Param)}
    (hnames : ∀ p ∈ ps, IsPlain p.1) (hplain : ∀ p ∈ ps, p.2.Plain) :
    (paramItems w ps).WF strict := by
  induction ps generalizing w with
  | nil => exact hw
  | cons p ps ih =>
      obtain ⟨name, p⟩ := p
      have hlabel : (Label.key name [] []).WF strict :=
        ⟨(hnames (name, p) (by simp)).chars, nofun, nofun⟩
      have hvalue : p.value.WF strict := Param.value_wf (hplain (name, p) (by simp))
      refine ⟨hw, hlabel, hvalue, ?_⟩
      split_ifs with hnil
      · exact nofun
      · refine ⟨nofun, ih (by decide) (fun q hq => hnames q (by simp [hq]))
          (fun q hq => hplain q (by simp [hq])), ?_⟩
        obtain ⟨q, ps, rfl⟩ := List.exists_cons_of_ne_nil hnil
        exact False.elim

theorem paramItems_depth (w : Bytes) (ps : List (Bytes × Param)) : (paramItems w ps).depth = 0 := by
  induction ps generalizing w with
  | nil => rfl
  | cons p ps ih =>
      obtain ⟨name, p⟩ := p
      rw [paramItems, Phrase.depth, p.value_depth]
      split_ifs
      · rfl
      · rw [Phrase.depth, ih]
        rfl

/-! ### Templates -/

theorem formatText_cons {c : UInt8} (hc : c ≠ percent) (t : Bytes) (args : List FormatArg) :
    formatText (c :: t) args = c :: formatText t args := by
  cases t with
  | nil => rfl
  | cons c' t => simp only [formatText, hc, if_false]

theorem formatText_int (v : BitVec 32) (t : Bytes) (args : List FormatArg) :
    formatText (percent :: 100 :: t) (.int v :: args) = intText v.toInt ++ formatText t args := by
  simp only [formatText, if_true]

theorem formatText_str (s : CString) (t : Bytes) (args : List FormatArg) :
    formatText (percent :: 115 :: t) (.str s :: args) = s.bytes ++ formatText t args := by
  simp only [formatText, if_true]

theorem formatText_literal {p : Bytes} (hp : percent ∉ p) (t : Bytes) (args : List FormatArg) :
    formatText (p ++ t) args = p ++ formatText t args := by
  induction p with
  | nil => rfl
  | cons c p ih =>
      rw [List.mem_cons, not_or] at hp
      rw [List.cons_append, List.cons_append, formatText_cons (Ne.symm hp.1), ih hp.2]

theorem formatText_slot (p : Param) (t : Bytes) (args : List FormatArg) :
    formatText (p.slot ++ t) (p.arg :: args) = p.value.text ++ formatText t args := by
  have hint : ascii "%d" = [percent, 100] := by decide
  have hstr : ascii "%s" = [percent, 115] := by decide
  cases p with
  | int v =>
      rw [Param.slot, hint]
      exact formatText_int v t args
  | text s =>
      have hslot : quoted (ascii "%s") ++ t = quote :: percent :: 115 :: quote :: t := by
        rw [hstr]
        rfl
      rw [Param.slot, hslot, formatText_cons (by decide), Param.arg, formatText_str,
        formatText_cons (by decide)]
      simp [Param.value, Phrase.text, quoted]
  | bool b =>
      rw [Param.slot, hstr]
      refine (formatText_str (boolText b) t args).trans ?_
      cases b <;> rfl

theorem formatText_joined {w : Bytes} (hw : percent ∉ w) {ps : List (Bytes × Param)}
    (hnames : ∀ p ∈ ps, percent ∉ p.1) (t : Bytes) :
    formatText (joined w (ps.map fun p => (p.1, p.2.slot)) ++ t) (ps.map fun p => p.2.arg) =
      joined w (ps.map fun p => (p.1, p.2.value.text)) ++ formatText t [] := by
  induction ps generalizing w with
  | nil => exact formatText_literal hw t []
  | cons p ps ih =>
      obtain ⟨name, p⟩ := p
      have hhead : percent ∉ w ++ (quoted name ++ [colon]) := by
        have hname := hnames (name, p) (by simp)
        simp +decide [quoted, hw, hname]
      have hsplit : ∀ v rest : Bytes, w ++ (quoted name ++ colon :: (v ++ rest)) ++ t =
          w ++ (quoted name ++ [colon]) ++ (v ++ (rest ++ t)) := by simp
      simp only [List.map_cons, joined]
      rw [hsplit, formatText_literal hhead, formatText_slot]
      cases ps with
      | nil => simp
      | cons q ps =>
          have ih := ih (w := [space]) (by decide) fun q' hq => hnames q' (by simp [hq])
          rw [if_neg (by simp), if_neg (by simp), List.cons_append, formatText_cons (by decide), ih]
          simp

/-! ### Commands -/

/-- What differs between the templates but for the parameters: the blank that `ShowMessage` has
after its colons, the name of the method and the id. -/
structure Frame where
  gap : Bytes
  method : Bytes
  id : ℕ

namespace Frame

variable (f : Frame)

def before : Bytes :=
  lbrace :: (quoted (ascii "jsonrpc") ++ colon :: (f.gap ++ (quoted (ascii "2.0") ++
    comma :: (f.gap ++ (quoted (ascii "method") ++ colon :: (f.gap ++ (quoted f.method ++
      comma :: space :: (quoted (ascii "params") ++ [colon, space, lbrace]))))))))

def after : Bytes :=
  rbrace :: comma :: space :: (quoted (ascii "id") ++ colon :: (f.gap ++ (natText f.id ++ [rbrace])))

def tree (ps : List (Bytes × Param)) : Value :=
  .node .curly
    (.item [] (.key (ascii "jsonrpc") [] f.gap) (.string (ascii "2.0"))
      (.more []
        (.item f.gap (.key (ascii "method") [] f.gap) (.string f.method)
          (.more []
            (.item [space] (.key (ascii "params") [] [space]) (.node .curly (paramItems [] ps))
              (.more []
                (.item [space] (.key (ascii "id") [] f.gap) (.number (natText f.id))
                  (.stop []))))))))

theorem tree_text (ps : List (Bytes × Param)) :
    (f.tree ps).text =
      f.before ++ (joined [] (ps.map fun p => (p.1, p.2.value.text)) ++ f.after) := by
  simp [tree, before, after, Phrase.text, Label.text, paramItems_text, Bracket.openByte,
    Bracket.closeByte]

def IsTemplate (template : Bytes) (slots : List (Bytes × Bytes)) : Prop :=
  template = f.before ++ (joined [] slots ++ f.after) ∧ percent ∉ f.before ∧ percent ∉ f.after ∧
    ∀ e ∈ slots, percent ∉ e.1

instance (template : Bytes) (slots : List (Bytes × Bytes)) :
    Decidable (f.IsTemplate template slots) := inferInstanceAs (Decidable (_ ∧ _))

theorem formatText_eq {template : Bytes} {ps : List (Bytes × Param)}
    (h : f.IsTemplate template (ps.map fun p => (p.1, p.2.slot))) :
    formatText template (ps.map fun p => p.2.arg) = (f.tree ps).text := by
  obtain ⟨htemplate, hbefore, hafter, hslots⟩ := h
  have hnames : ∀ p ∈ ps, percent ∉ p.1 := fun p hp => hslots _ (List.mem_map_of_mem hp)
  have hend : formatText f.after [] = f.after := by
    have := formatText_literal hafter [] []
    rwa [List.append_nil, formatText, List.append_nil] at this
  rw [htemplate, formatText_literal hbefore, formatText_joined (by simp) hnames, hend, tree_text]

/-- The blank after the colons and the name of the method are what JSON allows. -/
structure WF : Prop where
  gap : IsBlank f.gap
  method : IsPlain f.method

instance : Decidable f.WF :=
  decidable_of_iff (IsBlank f.gap ∧ IsPlain f.method) ⟨fun h => ⟨h.1, h.2⟩, fun h => ⟨h.1, h.2⟩⟩

theorem tree_wf (hf : f.WF) {ps : List (Bytes × Param)} (hnames : ∀ p ∈ ps, IsPlain p.1)
    (hplain : ∀ p ∈ ps, p.2.Plain) : (f.tree ps).WF strict := by
  have hblank : IsBlank [space] := by decide
  have hname : ∀ n : Bytes, IsPlain n → ∀ w, IsBlank w → (Label.key n [] w).WF strict :=
    fun n hn w hw => ⟨hn.chars, nofun, hw⟩
  refine ⟨nofun, hname _ (by decide) _ hf.gap, IsPlain.chars (by decide), nofun, ?_, nofun⟩
  refine ⟨hf.gap, hname _ (by decide) _ hf.gap, hf.method.chars, nofun, ?_, nofun⟩
  refine ⟨hblank, hname _ (by decide) _ hblank, paramItems_wf (w := []) nofun hnames hplain, nofun, ?_, nofun⟩
  exact ⟨hblank, hname _ (by decide) _ hf.gap, ⟨intNumeral f.id, by rw [← intText_eq]; rfl⟩, nofun⟩

theorem tree_depth (ps : List (Bytes × Param)) : (f.tree ps).depth = 2 := by
  simp [tree, Phrase.depth, paramItems_depth]

end Frame

end OtiKiosk
