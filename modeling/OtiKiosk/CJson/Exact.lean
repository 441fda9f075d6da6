import OtiKiosk.CJson.Buffer
import OtiKiosk.CJson.Escapes

/-!
Every item needs the length of its text and one byte more: the last thing that is
printed asks for a byte too many, and nothing before it asks for more than follows.
So a print into a block succeeds exactly if the text fits with two bytes to spare, one
of which its terminator takes.
-/

namespace OtiKiosk

open Ascii Json

namespace Setting

variable {S : Setting} {d d' n m : ℕ} {pre next t u w : Bytes} {p : PrintBuffer} {can can' : Prop}
  {a b : Attempt PrintBuffer} {post : Bytes → PrintBuffer → Prop}

theorem Needs.cast {post' : Bytes → PrintBuffer → Prop} (h : S.Needs d can a n post)
    (hcan : can ↔ can') (hn : n = m) (hpost : ∀ pre p, post pre p → post' pre p) :
    S.Needs d can' a m post' := by
  obtain rfl := hn
  obtain rfl := propext hcan
  exact h.conseq hpost

theorem Written.behind (h : S.Written d u (pre ++ t) p) : S.Written d (t ++ u) pre p := by
  obtain ⟨done, todo, rfl, hp⟩ := h
  refine ⟨t ++ done, todo, (List.append_assoc _ _ _).symm, ?_⟩
  rw [← List.append_assoc]
  exact hp

/-- The final quote is stored where the text that was counted ends. -/
theorem needs_quoted (s : CString) :
    S.Needs d True (PrintBuffer.printStringPtr S.realloc (some s))
      (s.bytes.length + (s.bytes.map PrintBuffer.escapeCharacters).sum + 3)
      (S.Written d (quoted (escapedText s.bytes))) := by
  have hlen := escapedText_length s.bytes
  have hbody : (if (s.bytes.map PrintBuffer.escapeCharacters).sum = 0 then s.bytes
      else s.bytes.flatMap PrintBuffer.escaped) = escapedText s.bytes := by
    split_ifs with h
    · exact (escapedText_eq_self h).symm
    · rfl
  apply needs_ensure
  · intro p p' hensure
    simp only [PrintBuffer.printStringPtr, hensure]
  · intro pre p p' hensure hp' hroom
    obtain ⟨q, hstore, hq, hqlen⟩ := hp'.store (w := quote :: escapedText s.bytes) (by
      rw [List.length_nil, List.length_cons]
      omega)
    rw [List.nil_append] at hq
    obtain ⟨q', hstore', hq', -⟩ := hq.store (w := [quote, nul]) (by
      rw [List.length_cons, List.length_cons, List.length_singleton]
      omega)
    rw [List.length_nil] at hstore
    rw [List.length_cons, hlen] at hstore'
    refine ⟨q', ?_, [], quoted (escapedText s.bytes), rfl, ?_⟩
    · simp only [PrintBuffer.printStringPtr, hensure, hbody, hstore, Option.bind_some, hstore',
        Option.map_some]
    · have hsame : quote :: escapedText s.bytes ++ [quote, nul] =
          quoted (escapedText s.bytes) ++ [nul] := by simp [quoted]
      rw [List.append_nil, ← hsame]
      exact hq'

theorem needs_string (s : Option CString) :
    S.Needs d True (PrintBuffer.printStringPtr S.realloc s)
      ((quoted (escapedText (stringBytes s))).length + 1)
      (S.Written d (quoted (escapedText (stringBytes s)))) := by
  cases s with
  | none => exact needs_put_written (t := [quote, quote]) (by decide)
  | some s =>
      refine (needs_quoted s).cast Iff.rfl ?_ fun _ _ hp => hp
      have hlen := escapedText_length s.bytes
      have hbytes : stringBytes (some s) = s.bytes := rfl
      simp only [hbytes, quoted, List.length_append, List.length_cons, List.length_nil]
      omega

/-! ### What stands between values -/

/-- A text and `update_offset`. -/
theorem Needs.text (h : S.Needs d can a n (S.Written d t)) (ht : nul ∉ t) :
    S.Needs d can (a.andThen PrintBuffer.updateOffset) n (S.Behind d t) :=
  (h.update ht).conseq fun _ _ hp => hp.nil_next

theorem formatted_eq {p : PrintBuffer} (h : p.format = S.format) (w : Bytes) :
    p.formatted w = blank S.format w := by
  rw [PrintBuffer.formatted, h]
  rfl

/-- The tabs before a member need nothing that the member does not need. -/
theorem Needs.indented (h : S.Needs d can b m post) (hm : 0 < m) :
    S.Needs d can ((PrintBuffer.printIndent S.realloc).andThen b)
      ((blank S.format (List.replicate d tab)).length + m)
      fun pre => post (pre ++ blank S.format (List.replicate d tab)) := by
  cases hformat : S.format with
  | true =>
      have htabs : (List.replicate d tab).length = d := List.length_replicate
      have hput : S.Needs d True (PrintBuffer.put S.realloc d (List.replicate d tab) d) d
          (S.Behind d (List.replicate d tab)) := by
        have hneeds := needs_put_behind (S := S) (d := d) (n := d) htabs.le
          (List.prefix_refl (List.replicate d tab)) (by omega)
        rwa [htabs] at hneeds
      have hindent : S.Needs d True (PrintBuffer.printIndent S.realloc) d
          (S.Behind d (List.replicate d tab)) := by
        refine hput.reading fun p hdepth hp => ?_
        rw [hp, hformat, if_pos rfl, hdepth]
      refine (hindent.andThen h ?_).cast (by simp) ?_ fun pre p hp => ?_
      · omega
      · simp only [blank, if_true]
      · simpa only [blank, if_true] using hp
  | false =>
      have hskip : S.Needs d can ((PrintBuffer.printIndent S.realloc).andThen b) m post := by
        intro pre p hp
        have hrun : ((PrintBuffer.printIndent S.realloc).andThen b) p = b p := by
          have hindent : PrintBuffer.printIndent S.realloc p = some (true, p) := by
            simp only [PrintBuffer.printIndent, Attempt.reading, hp.format, hformat]
            rfl
          rw [Attempt.andThen, hindent]
        rw [hrun]
        exact h pre p hp
      refine hskip.cast Iff.rfl (by simp [blank]) fun pre p hp => ?_
      simpa [blank] using hp

theorem needs_colon : S.Needs d True (PrintBuffer.printColon S.realloc)
    (colon :: blank S.format [tab]).length (S.Behind d (colon :: blank S.format [tab])) := by
  have hput := needs_put_behind (S := S) (d := d) (t := colon :: blank S.format [tab]) le_rfl
    (List.prefix_refl _) (Nat.le_succ _)
  refine hput.reading fun p _ hp => ?_
  rw [formatted_eq hp]

theorem needs_comma (last : Bool) : S.Needs d True (PrintBuffer.printComma S.realloc last)
    (((if last then [] else [comma]) ++ blank S.format [newline]).length + 1)
    (S.Behind d ((if last then [] else [comma]) ++ blank S.format [newline])) := by
  have hput := needs_put_behind (S := S) (d := d)
    (t := (if last then [] else [comma]) ++ blank S.format [newline]) (Nat.le_succ _)
    (List.prefix_append _ [nul]) (by
      rw [List.length_append, List.length_singleton]
      omega)
  refine hput.reading fun p _ hp => ?_
  simp only [formatted_eq hp]

/-- A member with what stands around it. -/
theorem needs_member (name : Option CString) (last : Bool)
    (h : S.Needs d can a (t.length + 1) (S.Written d t)) (ht : nul ∉ t) :
    S.Needs d can (PrintBuffer.printMember S.realloc name a last)
      ((blank S.format (List.replicate d tab) ++ (quoted (escapedText (stringBytes name)) ++
        (colon :: blank S.format [tab] ++ t) ++
          ((if last then [] else [comma]) ++ blank S.format [newline]))).length + 1)
      (S.Behind d (blank S.format (List.replicate d tab) ++
        (quoted (escapedText (stringBytes name)) ++ (colon :: blank S.format [tab] ++ t) ++
          ((if last then [] else [comma]) ++ blank S.format [newline])))) := by
  have hname := (needs_string (S := S) (d := d) name).text (quoted_noNul _)
  have hvalue := (h.text ht).andThen (needs_comma last) (by omega)
  have hcolon := needs_colon.andThen hvalue (by omega)
  have hstring := hname.andThen hcolon (by
    simp only [List.length_cons]
    omega)
  have hall := hstring.indented (by omega)
  simp only [PrintBuffer.printMember, Attempt.andThen_assoc] at hall ⊢
  refine hall.cast (by simp) ?_ fun pre p hp => ?_
  · simp only [List.length_append, List.length_cons]
    omega
  · simpa only [Behind, List.append_assoc, List.cons_append] using hp

/-- An item of an array with what stands behind it. -/
theorem needs_element (last : Bool) (h : S.Needs d can a (t.length + 1) (S.Written d t))
    (ht : nul ∉ t) (hb : S.Needs d can' b m post) (hm : 0 < m) :
    S.Needs d (can ∧ can') ((PrintBuffer.printElement S.realloc a last).andThen b)
      ((t ++ (if last then [] else comma :: blank S.format [space])).length + m)
      fun pre => post (pre ++ (t ++ (if last then [] else comma :: blank S.format [space]))) := by
  have hvalue := h.text ht
  cases last with
  | true =>
      have hall := hvalue.andThen hb (by omega)
      simp only [PrintBuffer.printElement, if_true, Attempt.andThen_succeed]
      refine hall.cast Iff.rfl (by simp) fun pre p hp => ?_
      simpa using hp
  | false =>
      have hput := needs_put_behind (S := S) (d := d) (t := comma :: blank S.format [space])
        (Nat.le_succ _) (List.prefix_append _ [nul]) (by
          rw [List.length_append, List.length_singleton]
          omega)
      have hcomma := hput.reading (f := fun p => PrintBuffer.put S.realloc
          ((comma :: p.formatted [space]).length + 1) (comma :: p.formatted [space] ++ [nul])
            (comma :: p.formatted [space]).length) fun p _ hp => by
        simp only [formatted_eq hp]
      have hall := hvalue.andThen (hcomma.andThen hb (by omega)) (by
        simp only [List.length_cons]
        omega)
      simp only [PrintBuffer.printElement, Bool.false_eq_true, if_false, Attempt.andThen_assoc] at hall ⊢
      have hcan : can ∧ True ∧ can' ↔ can ∧ can' := by simp
      refine hall.cast hcan ?_ fun pre p hp => ?_
      · simp only [List.length_append, List.length_cons]
        omega
      · simpa only [List.append_assoc] using hp

/-! ### Arrays and objects -/

theorem Behind.deeper (h : S.Behind d t pre p) : S.Behind (d + 1) t pre p.deeper :=
  ⟨h.block, h.offset, h.inside, congrArg (· + 1) h.depth, h.format, h.capped⟩

theorem Written.shallower (h : S.Written (d + 1) t pre p) : S.Written d t pre p.shallower := by
  obtain ⟨done, todo, ht, hp⟩ := h
  refine ⟨done, todo, ht, hp.block, hp.offset, hp.inside, ?_, hp.format, hp.capped⟩
  show p.depth - 1 = d
  rw [hp.depth, Nat.add_sub_cancel]

/-- The items between the brackets, and the closing bracket, end the text. -/
theorem needs_array {items : Bytes} {a : Attempt PrintBuffer}
    (h : ∀ {b : Attempt PrintBuffer} {m : ℕ} {post : Bytes → PrintBuffer → Prop}, 0 < m →
      S.Needs (d + 1) True b m post → S.Needs (d + 1) (can ∧ True) (a.andThen b) (items.length + m)
        fun pre => post (pre ++ items)) :
    S.Needs d can (PrintBuffer.printArray S.realloc a) ((lbracket :: (items ++ [rbracket])).length + 1)
      (S.Written d (lbracket :: (items ++ [rbracket]))) := by
  have hopen : S.Needs d True ((PrintBuffer.put S.realloc 1 [lbracket] 1).andDo PrintBuffer.deeper) 1
      (S.Behind (d + 1) [lbracket]) :=
    (needs_put_behind (t := [lbracket]) le_rfl (List.prefix_refl _) (by simp)).andDo
      fun _ _ hp => hp.deeper
  have hclose : S.Needs (d + 1) True
      ((PrintBuffer.put S.realloc 2 [rbracket, nul] 0).andDo PrintBuffer.shallower) 2
      (S.Written d [rbracket]) :=
    (needs_put_written (t := [rbracket]) (n := 2) (by simp)).andDo fun _ _ hp => hp.shallower
  have hall := hopen.andThen (h (by omega) hclose) (by omega)
  have hcan : True ∧ can ∧ True ↔ can := by simp
  simp only [PrintBuffer.printArray, Attempt.andDo, Attempt.andThen_assoc] at hall ⊢
  refine hall.cast hcan ?_ fun pre p hp => ?_
  · simp only [List.length_append, List.length_cons, List.length_nil]
    omega
  · exact hp.behind.behind

theorem needs_object {members : Bytes} {a : Attempt PrintBuffer}
    (h : ∀ {b : Attempt PrintBuffer} {m : ℕ} {post : Bytes → PrintBuffer → Prop}, 0 < m →
      S.Needs (d + 1) True b m post → S.Needs (d + 1) (can ∧ True) (a.andThen b) (members.length + m)
        fun pre => post (pre ++ members)) :
    S.Needs d can (PrintBuffer.printObject S.realloc a)
      ((lbrace :: (blank S.format [newline] ++ (members ++ blank S.format (List.replicate d tab)) ++
        [rbrace])).length + 1)
      (S.Written d (lbrace :: (blank S.format [newline] ++
        (members ++ blank S.format (List.replicate d tab)) ++ [rbrace]))) := by
  have hopen : S.Needs d True (Attempt.andDo (Attempt.reading fun p =>
      PrintBuffer.put S.realloc ((lbrace :: p.formatted [newline]).length + 1)
        (lbrace :: p.formatted [newline]) (lbrace :: p.formatted [newline]).length)
        PrintBuffer.deeper)
      ((lbrace :: blank S.format [newline]).length + 1)
      (S.Behind (d + 1) (lbrace :: blank S.format [newline])) := by
    have hput := needs_put_behind (S := S) (d := d) (t := lbrace :: blank S.format [newline])
      (Nat.le_succ _) (List.prefix_refl _) (Nat.le_add_right _ 2)
    refine (hput.reading fun p _ hp => ?_).andDo fun _ _ hp => hp.deeper
    rw [formatted_eq hp]
  have hclose : S.Needs (d + 1) True (Attempt.andDo (Attempt.reading fun p =>
      PrintBuffer.put S.realloc (if p.format then p.depth + 1 else 2)
        (p.formatted (List.replicate (p.depth - 1) tab) ++ [rbrace, nul]) 0) PrintBuffer.shallower)
      ((blank S.format (List.replicate d tab)).length + 2)
      (S.Written d (blank S.format (List.replicate d tab) ++ [rbrace])) := by
    have hput := needs_put_written (S := S) (d := d + 1)
      (t := blank S.format (List.replicate d tab) ++ [rbrace])
      (n := (blank S.format (List.replicate d tab)).length + 2) (by
        rw [List.length_append, List.length_singleton]
        omega)
    refine (hput.reading fun p hdepth hp => ?_).andDo fun _ _ hp => hp.shallower
    rw [formatted_eq hp, hdepth, Nat.add_sub_cancel, hp, List.append_assoc]
    refine congrArg₂ (fun n w => PrintBuffer.put S.realloc n w 0) ?_ rfl
    cases S.format
    · rfl
    · simp [blank]
  have hall := hopen.andThen (h (by omega) hclose) (by omega)
  have hcan : True ∧ can ∧ True ↔ can := by simp
  simp only [PrintBuffer.printObject, Attempt.andDo, Attempt.andThen_assoc] at hall ⊢
  refine hall.cast hcan ?_ fun pre p hp => ?_
  · simp only [List.length_append, List.length_cons, List.length_nil]
    omega
  · have hwritten := hp.behind.behind
    simpa only [List.append_assoc, List.cons_append] using hwritten

/-! ### Items -/

def elements (S : Setting) (d : ℕ) (list : CJson .list) : Bytes :=
  elementsText (comma :: blank S.format [space])
    ((list.members S.format d).map fun v => v.2.text)

def memberLines (S : Setting) (d : ℕ) (list : CJson .list) : Bytes :=
  membersText (blank S.format (List.replicate d tab)) (blank S.format [newline])
    ((list.members S.format d).map fun v => quoted v.1 ++ (colon :: blank S.format [tab] ++ v.2.text))

theorem array_text (child : CJson .list) :
    (CJson.value S.format (.array child) d).text =
      lbracket :: (S.elements (d + 1) child ++ [rbracket]) := by
  have hspread := spread_elements (blank S.format [space])
    ((child.members S.format (d + 1)).map Prod.snd)
  have htexts : ((child.members S.format (d + 1)).map Prod.snd).map Phrase.text =
      (child.members S.format (d + 1)).map fun v => v.2.text := List.map_map
  rw [htexts] at hspread
  exact congrArg (fun w => lbracket :: (w ++ [rbracket])) hspread

theorem object_text (child : CJson .list) :
    (CJson.value S.format (.object child) d).text =
      lbrace :: (blank S.format [newline] ++ (S.memberLines (d + 1) child ++
        blank S.format (List.replicate d tab)) ++ [rbrace]) := by
  have hlabel : (fun v : Bytes × Value => quoted v.1 ++ (colon :: blank S.format [tab] ++ v.2.text)) =
      fun v => (Label.key v.1 [] (blank S.format [tab])).text ++ v.2.text := by
    funext v
    simp [Label.text]
  rw [memberLines, hlabel]
  have hspread := spread_members (blank S.format (List.replicate (d + 1) tab))
    (blank S.format [newline]) (blank S.format (List.replicate d tab))
    (labelled S.format (child.members S.format (d + 1)))
  rw [labelled, List.map_map] at hspread
  exact congrArg (fun w => lbrace :: (w ++ [rbrace])) hspread.symm

/-- What a part needs: an item what its text is long and one byte, a list what its text is
long before anything else is printed. -/
def Spec (S : Setting) : {part : CJsonPart} → CJson part → Prop
  | .item, c => ∀ d, nul ∉ (c.value S.format d).text ∧
      S.Needs d c.Printable (c.print S.realloc false) ((c.value S.format d).text.length + 1)
        (S.Written d (c.value S.format d).text)
  | .list, c => ∀ d, nul ∉ S.elements d c ∧ nul ∉ S.memberLines d c ∧
      ∀ {can : Prop} {b : Attempt PrintBuffer} {m : ℕ} {post : Bytes → PrintBuffer → Prop}, 0 < m →
        S.Needs d can b m post →
        S.Needs d (c.Printable ∧ can) ((c.print S.realloc false).andThen b)
          ((S.elements d c).length + m) (fun pre => post (pre ++ S.elements d c)) ∧
        S.Needs d (c.Printable ∧ can) ((c.print S.realloc true).andThen b)
          ((S.memberLines d c).length + m) fun pre => post (pre ++ S.memberLines d c)

theorem blank_noNul {format : Bool} {w : Bytes} (h : nul ∉ w) : nul ∉ blank format w := by
  rw [blank]
  split_ifs
  · exact h
  · exact List.not_mem_nil

theorem tabs_noNul (d : ℕ) : nul ∉ List.replicate d tab :=
  fun h => absurd (List.eq_of_mem_replicate h) (by decide)

theorem spec_cons (name : Option CString) {item : CJson .item} {next : CJson .list}
    (hitem : S.Spec item) (hnext : S.Spec next) : S.Spec (.cons name item next) := by
  intro d
  obtain ⟨hnul, hneeds⟩ := hitem d
  obtain ⟨hnulElements, hnulLines, hrest⟩ := hnext d
  have helements : S.elements d (.cons name item next) =
      (item.value S.format d).text ++ (if next.isNil then [] else comma :: blank S.format [space]) ++
        S.elements d next := by
    rw [← CJson.members_isEmpty S.format d, elements, CJson.members_cons, List.map_cons, elementsText,
      List.isEmpty_map, List.append_assoc]
    rfl
  have hlines : S.memberLines d (.cons name item next) =
      blank S.format (List.replicate d tab) ++ (quoted (escapedText (stringBytes name)) ++
        (colon :: blank S.format [tab] ++ (item.value S.format d).text) ++
          ((if next.isNil then [] else [comma]) ++ blank S.format [newline])) ++
        S.memberLines d next := by
    rw [← CJson.members_isEmpty S.format d, memberLines, CJson.members_cons, List.map_cons, membersText,
      List.isEmpty_map]
    rfl
  refine ⟨?_, ?_, fun hm hb => ?_⟩
  · rw [helements]
    refine List.not_mem_append (List.not_mem_append hnul ?_) hnulElements
    split_ifs
    · exact List.not_mem_nil
    · exact List.not_mem_cons_of_ne_of_not_mem (by decide) (blank_noNul (by decide))
  · rw [hlines]
    refine List.not_mem_append (List.not_mem_append (blank_noNul (tabs_noNul d))
      (List.not_mem_append (List.not_mem_append (quoted_noNul _) (List.not_mem_append
        (List.not_mem_cons_of_ne_of_not_mem (by decide) (blank_noNul (by decide))) hnul))
        (List.not_mem_append ?_ (blank_noNul (by decide))))) hnulLines
    split_ifs
    · exact List.not_mem_nil
    · decide
  · obtain ⟨helementsRest, hlinesRest⟩ := hrest hm hb
    have hturn := needs_element next.isNil hneeds hnul helementsRest (by omega)
    have hline := (needs_member name next.isNil hneeds hnul).andThen hlinesRest (by omega)
    constructor
    · rw [helements]
      show S.Needs d _ (((PrintBuffer.printElement S.realloc (item.print S.realloc false)
        next.isNil).andThen (next.print S.realloc false)).andThen _) _ _
      rw [Attempt.andThen_assoc]
      refine hturn.cast (and_assoc).symm ?_ fun pre p hp => ?_
      · simp only [List.length_append]
        omega
      · rwa [← List.append_assoc]
    · rw [hlines]
      show S.Needs d _ (((PrintBuffer.printMember S.realloc name (item.print S.realloc false)
        next.isNil).andThen (next.print S.realloc true)).andThen _) _ _
      rw [Attempt.andThen_assoc]
      refine hline.cast (and_assoc).symm ?_ fun pre p hp => ?_
      · simp only [List.length_append]
        omega
      · rwa [← List.append_assoc]

theorem needs_number (text : CString) : nul ∉ (CJson.value S.format (.number text) d).text ∧
    S.Needs d (CJson.number text).Printable (PrintBuffer.printNumber S.realloc text)
      ((CJson.value S.format (.number text) d).text.length + 1)
      (S.Written d (CJson.value S.format (.number text) d).text) := by
  have htext : (CJson.value S.format (.number text) d).text = text.bytes := by
    show (if text.bytes = ascii "null" then Phrase.null else Phrase.number text.bytes).text = _
    split_ifs with h
    · exact h.symm
    · rfl
  rw [htext, PrintBuffer.printNumber]
  refine ⟨text.noNul, ?_⟩
  by_cases hlong : 25 < text.bytes.length
  · rw [if_pos hlong]
    exact Needs.fail.cast ⟨False.elim, fun h => absurd hlong (Nat.not_lt.mpr h)⟩ rfl fun _ _ hp => hp
  · rw [if_neg hlong]
    have hput := needs_put (S := S) (d := d) (w := text.bytes ++ [nul]) (n := text.bytes.length + 1)
      (i := text.bytes.length) (by simp) (Nat.le_succ _) (by simp)
    rw [List.take_left, List.drop_left] at hput
    exact hput.cast ⟨fun _ => Nat.not_lt.mp hlong, fun _ => trivial⟩ rfl
      fun _ _ hp => ⟨text.bytes, [], (List.append_nil _).symm, hp⟩

/-- Every item needs its text and one byte more. -/
theorem needs_print {part : CJsonPart} (c : CJson part) : S.Spec c := by
  have hnull : nul ∉ ascii "null" := by decide
  have hfalse : nul ∉ ascii "false" := by decide
  have htrue : nul ∉ ascii "true" := by decide
  induction c with
  | null => exact fun d => ⟨hnull, needs_put_written (t := ascii "null") (by decide)⟩
  | false => exact fun d => ⟨hfalse, needs_put_written (t := ascii "false") (by decide)⟩
  | true => exact fun d => ⟨htrue, needs_put_written (t := ascii "true") (by decide)⟩
  | number text => exact fun d => needs_number text
  | raw s =>
      intro d
      cases s with
      | none => exact ⟨List.not_mem_nil, Needs.fail.cast (by simp [CJson.Printable]) rfl fun _ _ hp => hp⟩
      | some s =>
          refine ⟨s.noNul, (needs_put_written (t := s.bytes) (Nat.le_succ _)).cast ?_ rfl
            fun _ _ hp => hp⟩
          simp [CJson.Printable]
  | string s => exact fun d => ⟨quoted_noNul _, needs_string s⟩
  | array child ih =>
      intro d
      obtain ⟨hnul, -, hrest⟩ := ih (d + 1)
      rw [array_text]
      refine ⟨?_, needs_array fun hm hb => (hrest hm hb).1⟩
      exact List.not_mem_cons_of_ne_of_not_mem (by decide) (List.not_mem_append hnul (by decide))
  | object child ih =>
      intro d
      obtain ⟨-, hnul, hrest⟩ := ih (d + 1)
      rw [object_text]
      refine ⟨?_, needs_object fun hm hb => (hrest hm hb).2⟩
      exact List.not_mem_cons_of_ne_of_not_mem (by decide) (List.not_mem_append
        (List.not_mem_append (blank_noNul (by decide))
          (List.not_mem_append hnul (blank_noNul (tabs_noNul d)))) (by decide))
  | invalid => exact fun d => ⟨hnull, .fail⟩
  | nil =>
      refine fun d => ⟨List.not_mem_nil, List.not_mem_nil, fun _ hb => ?_⟩
      have hsame := hb.cast (true_and _).symm.to_iff (Nat.zero_add _).symm fun pre p hp => by
        rwa [← List.append_nil pre] at hp
      exact ⟨hsame, hsame⟩
  | cons name item next ihitem ihnext => exact spec_cons name ihitem ihnext

end Setting

end OtiKiosk
