import OtiKiosk.Client.Shape

/-!
Whether the text of a command says what the caller meant: one JSON object, with
the method and the id of the template, in which every text argument is read back
as it was given. The templates put text arguments between quotes as they are, so
this is the case exactly for the arguments that need no escape.
-/

namespace OtiKiosk

open Ascii Json

/-- The command text is a JSON object with this method and this id, and its text parameters are
read back by `mjson_get_string` whenever there is room. -/
structure Conveys (cmd method : Bytes) (id : ℕ) (args : List (Bytes × CString)) : Prop where
  object : ∃ items : Phrase (.items .curly), (Phrase.node .curly items).WF strict ∧
    (Phrase.node .curly items).text = cmd ∧
    (Located.member ⟨0, .node .curly items⟩ (ascii "method")).map Located.value =
      some (.string method) ∧
    (Located.member ⟨0, .node .curly items⟩ (ascii "id")).map Located.value =
      some (.number (natText id))
  args : ∀ a ∈ args, ∀ n, a.2.bytes.length < n →
    mjsonGetString cmd cmd.length (pathOf [ascii "params", a.1]) n =
      (a.2.bytes ++ [nul], some a.2.bytes.length)

/-! ### Reading the tree of a command -/

theorem paramItems_find {ps : List (Bytes × Param)} (hnodup : (ps.map Prod.fst).Nodup)
    {n : Bytes} {p : Param} (hp : (n, p) ∈ ps) (w : Bytes) (i : ℕ) :
    ∃ j, ((paramItems w ps).entries i).find? (fun e => e.1 = some n) = some (some n, ⟨j, p.value⟩) := by
  induction ps generalizing w i with
  | nil => cases hp
  | cons q ps ih =>
      obtain ⟨m, q⟩ := q
      simp only [paramItems, Phrase.entries]
      rw [List.map_cons, List.nodup_cons] at hnodup
      rcases List.mem_cons.mp hp with heq | hp
      · cases heq
        exact ⟨_, List.find?_cons_of_pos (by simp)⟩
      · have hne : m ≠ n := by
          rintro rfl
          exact hnodup.1 (List.mem_map.mpr ⟨_, hp, rfl⟩)
        have hps : ps ≠ [] := List.ne_nil_of_mem hp
        rw [List.find?_cons_of_neg (by simpa using hne), if_neg hps, Phrase.entries]
        exact ih hnodup.2 hp _ _

namespace Frame

variable (f : Frame)

theorem tree_member (ps : List (Bytes × Param)) :
    (Located.member ⟨0, f.tree ps⟩ (ascii "method")).map Located.value = some (.string f.method) ∧
      (Located.member ⟨0, f.tree ps⟩ (ascii "id")).map Located.value =
        some (.number (natText f.id)) := by
  have h₁ : ascii "jsonrpc" ≠ ascii "method" := by decide +kernel
  have h₂ : ascii "jsonrpc" ≠ ascii "id" := by decide +kernel
  have h₃ : ascii "method" ≠ ascii "id" := by decide +kernel
  have h₄ : ascii "params" ≠ ascii "id" := by decide +kernel
  simp [Located.member, Located.members, tree, Phrase.entries, h₁, h₂, h₃, h₄]

theorem tree_sticky {ps : List (Bytes × Param)} (hnodup : (ps.map Prod.fst).Nodup)
    {n : Bytes} {p : Param} (hp : (n, p) ∈ ps) :
    (Located.sticky ⟨0, f.tree ps⟩ (ascii "params") n).map Located.value = some p.value := by
  have h₁ : ascii "jsonrpc" ≠ ascii "params" := by decide +kernel
  have h₂ : ascii "method" ≠ ascii "params" := by decide +kernel
  simp only [Located.sticky, Located.members, tree, Phrase.entries]
  rw [List.dropWhile_cons_of_pos (by simpa using h₁), List.dropWhile_cons_of_pos (by simpa using h₂),
    List.dropWhile_cons_of_neg (by simp), List.findSome?_cons, Located.member, Located.members]
  obtain ⟨j, hfind⟩ := paramItems_find hnodup hp [] _
  rw [hfind]
  rfl

/-- The tree is what `mjson` reads. -/
theorem tree_denotes {ps : List (Bytes × Param)} (hwf : (f.tree ps).WF strict) :
    Denotes (f.tree ps).text (f.tree ps).text.length (f.tree ps) 0 :=
  .of_text (hwf.mono strict_le) (by rw [tree_depth]; decide) ⟨.curly, _, rfl⟩

/-- Parameters that need no escape are read back. -/
theorem conveys_of_plain (hf : f.WF) {ps : List (Bytes × Param)}
    (hnames : ∀ p ∈ ps, IsPlain p.1 ∧ IsName p.1) (hnodup : (ps.map Prod.fst).Nodup)
    (hplain : ∀ p ∈ ps, p.2.Plain) {args : List (Bytes × CString)}
    (hargs : ∀ a ∈ args, (a.1, .text a.2) ∈ ps) :
    Conveys (f.tree ps).text f.method f.id args := by
  have hwf := f.tree_wf hf (fun p hp => (hnames p hp).1) hplain
  have hden := f.tree_denotes hwf
  obtain ⟨hmethod, hid⟩ := f.tree_member ps
  refine ⟨⟨_, hwf, rfl, hmethod, hid⟩, ?_⟩
  intro a ha n hn
  have hp := hargs a ha
  have hfind := hden.mjsonFind_sticky (n := ascii "params") (by decide) (hnames _ hp).2
  have hsticky := f.tree_sticky hnodup hp
  have hstring : ((Located.sticky ⟨0, f.tree ps⟩ (ascii "params") a.1).bind
      fun v => v.value.string?) = some a.2.bytes := by
    rw [Option.map_eq_some_iff] at hsticky
    obtain ⟨u, hu, hvalue⟩ := hsticky
    rw [hu, Option.bind_some, hvalue]
    rfl
  rw [mjsonGetString_of hfind (fun _ hu => member_of_sticky hden.in hu), hstring]
  exact (mjsonUnescape_eq_iff _ _ _).mpr ⟨IsPlain.decode_eq (hplain _ hp), hn⟩

end Frame

/-! ### Arguments that are read back -/

def leadsOf (w : Bytes) : List (Bytes × Param) → List Lead
  | [] => []
  | (name, p) :: ps => ⟨w, name, [], [], p.value⟩ :: leadsOf [space] ps

theorem paramItems_split (w : Bytes) (hw : IsBlank w) (pre : List (Bytes × Param)) (n : Bytes)
    (p : Param) (post : List (Bytes × Param)) :
    ∃ w' tail, IsBlank w' ∧ (paramItems w (pre ++ (n, p) :: post)).text =
      (leadsOf w pre).flatMap Lead.text ++ (w' ++ (Label.key n [] []).text) ++
        (p.value.text ++ tail) := by
  induction pre generalizing w with
  | nil => exact ⟨w, _, hw, by simp [paramItems, Phrase.text, leadsOf]; rfl⟩
  | cons q pre ih =>
      obtain ⟨m, q⟩ := q
      obtain ⟨w', tail, hw', htext⟩ := ih [space] (by decide)
      refine ⟨w', tail, hw', ?_⟩
      rw [List.cons_append, paramItems, if_neg (by simp), Phrase.text, Phrase.text, htext]
      simp [leadsOf, Lead.text, Lead.label]

theorem leadsOf_passes {w : Bytes} (hw : IsBlank w) {ps : List (Bytes × Param)} {n : Bytes}
    {d : ℕ} (hd : d ≤ mjsonMaxDepth) (hnames : ∀ p ∈ ps, IsPlain p.1 ∧ p.1 ≠ n)
    (hplain : ∀ p ∈ ps, p.2.Plain) : ∀ l ∈ leadsOf w ps, l.Passes n d := by
  induction ps generalizing w with
  | nil => exact nofun
  | cons p ps ih =>
      obtain ⟨name, p⟩ := p
      have hname := hnames (name, p) (by simp)
      have hp : p.Plain := hplain (name, p) (by simp)
      intro l hl
      rcases List.mem_cons.mp hl with rfl | hl
      · refine ⟨hw, ⟨lexicon_chars hname.1.chars, nofun, nofun⟩, (Param.value_wf hp).mono strict_le,
          ?_, hname.2⟩
        simp only [p.value_depth]
        omega
      · exact ih (by decide) (fun q hq => hnames q (by simp [hq]))
          (fun q hq => hplain q (by simp [hq])) l hl

def Frame.leads (f : Frame) : List Lead :=
  [⟨[], ascii "jsonrpc", [], f.gap, .string (ascii "2.0")⟩,
    ⟨f.gap, ascii "method", [], f.gap, .string f.method⟩]

theorem Frame.leads_pass {f : Frame} (hf : f.WF) :
    ∀ l ∈ f.leads, l.Passes (ascii "params") 1 := by
  have hchars : ∀ {raw}, IsPlain raw → mjsonLexicon.string raw := fun h => lexicon_chars h.chars
  have hversion : IsPlain (ascii "jsonrpc") := by decide
  have hmethod : IsPlain (ascii "method") := by decide
  have hnumber : IsPlain (ascii "2.0") := by decide
  have hdepth : 0 + 1 ≤ mjsonMaxDepth := by decide
  have hne : ascii "jsonrpc" ≠ ascii "params" := by decide +kernel
  have hne' : ascii "method" ≠ ascii "params" := by decide +kernel
  intro l hl
  rcases List.mem_cons.mp hl with rfl | hl
  · exact ⟨nofun, ⟨hchars hversion, nofun, hf.gap⟩, hchars hnumber, hdepth, hne⟩
  · obtain rfl := List.mem_singleton.mp hl
    exact ⟨hf.gap, ⟨hchars hmethod, nofun, hf.gap⟩, hchars hf.method, hdepth, hne'⟩

theorem string_of_tok {v : Value} (h : v.tok = .string) : ∃ raw, v = .string raw := by
  cases v with
  | string raw => exact ⟨raw, rfl⟩
  | node b items => cases b <;> cases h
  | number raw => cases h
  | true => cases h
  | false => cases h
  | null => cases h

/-- A text parameter that is read back needs no escape, if those in front of it need none. -/
theorem Frame.plain_of_conveys {f : Frame} (hf : f.WF) {pre post : List (Bytes × Param)}
    {n : Bytes} {s : CString} (hname : IsName n ∧ IsPlain n)
    (hnames : ∀ p ∈ pre, IsPlain p.1 ∧ p.1 ≠ n) (hplain : ∀ p ∈ pre, p.2.Plain)
    {args : List (Bytes × CString)} (hargs : (n, s) ∈ args)
    (h : Conveys (f.tree (pre ++ (n, .text s) :: post)).text f.method f.id args) :
    IsPlain s.bytes := by
  obtain ⟨⟨items, hwf, htext, -⟩, hread⟩ := h
  have hread := hread _ hargs (s.bytes.length + 1) (Nat.lt_succ_self _)
  simp only at hread
  obtain ⟨w', tail, hw', hps⟩ := paramItems_split [] nofun pre n (.text s) post
  have hcmd : (f.tree (pre ++ (n, .text s) :: post)).text = lbrace :: (f.leads.flatMap Lead.text ++
      ([space] ++ (Label.key (ascii "params") [] [space]).text) ++ (lbrace ::
        ((leadsOf [] pre).flatMap Lead.text ++ (w' ++ (Label.key n [] []).text) ++
          (quote :: (s.bytes ++ quote :: (tail ++ f.after)))))) := by
    rw [tree_text, ← paramItems_text, hps]
    simp [before, leads, Lead.text, Lead.label, Label.text, Phrase.text, Param.value, quoted]
  generalize (f.tree (pre ++ (n, .text s) :: post)).text = cmd at htext hread hcmd
  -- the text is read, and so the string found starts where the argument does
  have hret : 0 ≤ (mjson cmd cmd.length).1 := by
    by_contra hneg
    have hnone : mjsonFind cmd cmd.length (pathOf [ascii "params", n]) = .none := by
      simp [mjsonFind, not_le.mp hneg]
    rw [mjsonGetString, hnone] at hread
    simp [Found.none] at hread
  have hlabel : (Label.key (ascii "params") [] [space]).WF mjsonLexicon :=
    ⟨lexicon_chars (IsPlain.chars (by decide)), nofun, by decide⟩
  have hlabel' : (Label.key n [] []).WF mjsonLexicon := ⟨lexicon_chars hname.2.chars, nofun, nofun⟩
  obtain ⟨k, i, hpass, hdrop, hfind⟩ := find_string (by decide) hname.1 (Frame.leads_pass hf)
    (leadsOf_passes (w := []) nofun (by decide) hnames hplain) (by decide) hw' hlabel hlabel' hcmd
    hret
  simp only [mjsonGetString, hfind, ne_eq, not_true_eq_false, if_false, hdrop,
    Nat.add_sub_cancel] at hread
  obtain ⟨hdecode, -⟩ := (mjsonUnescape_eq_iff _ _ _).mp hread
  -- then no backslash is in it, and its end is that of the argument
  obtain ⟨-, -, hback, rfl⟩ := read_back_of_quoted (j := 0) hpass hdecode
  -- what is read is a string of the tree
  subst htext
  have hden := Denotes.of_text (hwf.mono strict_le) (depth_of_mjson (hwf.mono strict_le) hret)
    ⟨.curly, items, rfl⟩
  rw [hden.mjsonFind_sticky (by decide) hname.1] at hfind
  cases hsticky : Located.sticky ⟨0, .node .curly items⟩ (ascii "params") n with
  | none =>
      rw [hsticky] at hfind
      cases hfind
  | some u =>
      rw [hsticky, Found.of, Found.mk.injEq] at hfind
      obtain ⟨htok, rfl, hlen⟩ := hfind
      obtain ⟨raw, hraw⟩ := string_of_tok htok
      have hin := Located.sticky_in (L := strict) (d := (Phrase.node .curly items).depth)
        (s := (Phrase.node .curly items).text) ⟨hwf, le_rfl, List.prefix_refl _⟩ hsticky
      have hchars : IsChars raw := by
        have := hin.wf
        rwa [hraw] at this
      have hbytes := (member_of_sticky hden.in hsticky).raw_eq hraw
      rw [hdrop, hlen, Nat.add_sub_cancel, List.take_left] at hbytes
      rw [← hbytes] at hchars
      exact hchars.plain hback

/-- Every text parameter needs no escape, from the first to the last. -/
theorem Frame.all_plain_of_conveys {f : Frame} (hf : f.WF) {ps : List (Bytes × Param)}
    (hnames : ∀ p ∈ ps, IsPlain p.1 ∧ IsName p.1) (hnodup : (ps.map Prod.fst).Nodup)
    {args : List (Bytes × CString)} (hargs : ∀ n s, (n, .text s) ∈ ps → (n, s) ∈ args)
    (h : Conveys (f.tree ps).text f.method f.id args) (pre : List (Bytes × Param)) :
    ∀ post, ps = pre ++ post → ∀ p ∈ pre, p.2.Plain := by
  induction pre using List.reverseRecOn with
  | nil => exact fun _ _ => nofun
  | append_singleton pre p ih =>
      intro post hps
      rw [List.append_assoc, List.singleton_append] at hps
      have hpre := ih _ hps
      intro q hq
      rcases List.mem_append.mp hq with hq | hq
      · exact hpre q hq
      · obtain rfl := List.mem_singleton.mp hq
        obtain ⟨n, q⟩ := q
        cases q with
        | int v => trivial
        | bool b => trivial
        | text s =>
            have hmem : (n, .text s) ∈ ps := by rw [hps]; simp
            have hne : ∀ p ∈ pre, p.1 ≠ n := by
              rintro p hp rfl
              rw [hps, List.map_append, List.nodup_append] at hnodup
              exact hnodup.2.2 _ (List.mem_map_of_mem hp) _ (by simp) rfl
            rw [hps] at h
            refine Frame.plain_of_conveys hf (hnames _ hmem).symm (fun p hp => ⟨?_, hne p hp⟩) hpre
              (hargs n s hmem) h
            exact (hnames p (by rw [hps]; simp [hp])).1

/-! ### The five commands -/

namespace BooleanCommand

def params : BooleanCommand → List (Bytes × Param)
  | .showMessage line1 line2 => [(ascii "strLine1", .text line1), (ascii "strLine2", .text line2)]
  | .preAuthorize p | .payTransaction p =>
      [(ascii "amount", .int p.amountCents), (ascii "currency", .int (p.currencyCode.setWidth 32)),
        (ascii "timeout", .int p.timeoutSec), (ascii "fee", .int p.feeCents),
        (ascii "productID", .int p.productId), (ascii "continuous", .bool p.continuous)]
  | .confirmTransaction amount fee product reference =>
      [(ascii "amount", .int amount), (ascii "fee", .int fee), (ascii "productID", .int product),
        (ascii "transaction_Reference", .text reference)]
  | .voidTransaction reference => [(ascii "transaction_Reference", .text reference)]

def template : BooleanCommand → Bytes
  | .showMessage _ _ => showMessageTemplate
  | .preAuthorize _ => preAuthorizeTemplate
  | .payTransaction _ => payTransactionTemplate
  | .confirmTransaction _ _ _ _ => confirmTransactionTemplate
  | .voidTransaction _ => voidTransactionTemplate

def frame : BooleanCommand → Frame
  | .showMessage _ _ => ⟨[space], ascii "ShowMessage", 2⟩
  | .preAuthorize _ => ⟨[], ascii "PreAuthorize", 6⟩
  | .payTransaction _ => ⟨[], ascii "PayTransaction", 7⟩
  | .confirmTransaction _ _ _ _ => ⟨[], ascii "ConfirmTransaction", 8⟩
  | .voidTransaction _ => ⟨[], ascii "VoidTransaction", 9⟩

def textArgs : BooleanCommand → List (Bytes × CString)
  | .showMessage line1 line2 => [(ascii "strLine1", line1), (ascii "strLine2", line2)]
  | .preAuthorize _ | .payTransaction _ => []
  | .confirmTransaction _ _ _ reference => [(ascii "transaction_Reference", reference)]
  | .voidTransaction reference => [(ascii "transaction_Reference", reference)]

theorem mem_textArgs_iff (cmd : BooleanCommand) (n : Bytes) (s : CString) :
    (n, s) ∈ cmd.textArgs ↔ (n, .text s) ∈ cmd.params := by
  cases cmd <;> simp [textArgs, params]

theorem frame_wf (cmd : BooleanCommand) : cmd.frame.WF := by
  cases cmd with
  | showMessage line1 line2 => exact (by decide : Frame.WF ⟨[space], ascii "ShowMessage", 2⟩)
  | preAuthorize p => exact (by decide : Frame.WF ⟨[], ascii "PreAuthorize", 6⟩)
  | payTransaction p => exact (by decide : Frame.WF ⟨[], ascii "PayTransaction", 7⟩)
  | confirmTransaction amount fee product reference =>
      exact (by decide : Frame.WF ⟨[], ascii "ConfirmTransaction", 8⟩)
  | voidTransaction reference => exact (by decide : Frame.WF ⟨[], ascii "VoidTransaction", 9⟩)

/-- Names of parameters need no escape, can stand in a path, and differ. -/
def NamesOk (names : List Bytes) : Prop :=
  (∀ n ∈ names, IsPlain n ∧ IsName n) ∧ names.Nodup

instance (names : List Bytes) : Decidable (NamesOk names) := inferInstanceAs (Decidable (_ ∧ _))

theorem params_names (cmd : BooleanCommand) : NamesOk (cmd.params.map Prod.fst) := by
  cases cmd with
  | showMessage line1 line2 =>
      exact (by decide +kernel : NamesOk [ascii "strLine1", ascii "strLine2"])
  | preAuthorize p | payTransaction p =>
      exact (by decide +kernel : NamesOk [ascii "amount", ascii "currency", ascii "timeout",
        ascii "fee", ascii "productID", ascii "continuous"])
  | confirmTransaction amount fee product reference =>
      exact (by decide +kernel : NamesOk [ascii "amount", ascii "fee", ascii "productID",
        ascii "transaction_Reference"])
  | voidTransaction reference =>
      exact (by decide +kernel : NamesOk [ascii "transaction_Reference"])

/-- The text that is sent is the text of the tree. -/
theorem text_eq (cmd : BooleanCommand) : cmd.text = (cmd.frame.tree cmd.params).text := by
  have htext : cmd.text = formatText cmd.template (cmd.params.map fun p => p.2.arg) := by
    cases cmd <;> rfl
  rw [htext]
  refine cmd.frame.formatText_eq ?_
  cases cmd with
  | showMessage line1 line2 =>
      exact (by decide +kernel : Frame.IsTemplate ⟨[space], ascii "ShowMessage", 2⟩
        showMessageTemplate [(ascii "strLine1", quoted (ascii "%s")),
          (ascii "strLine2", quoted (ascii "%s"))])
  | preAuthorize p =>
      exact (by decide +kernel : Frame.IsTemplate ⟨[], ascii "PreAuthorize", 6⟩
        preAuthorizeTemplate [(ascii "amount", ascii "%d"), (ascii "currency", ascii "%d"),
          (ascii "timeout", ascii "%d"), (ascii "fee", ascii "%d"), (ascii "productID", ascii "%d"),
          (ascii "continuous", ascii "%s")])
  | payTransaction p =>
      exact (by decide +kernel : Frame.IsTemplate ⟨[], ascii "PayTransaction", 7⟩
        payTransactionTemplate [(ascii "amount", ascii "%d"), (ascii "currency", ascii "%d"),
          (ascii "timeout", ascii "%d"), (ascii "fee", ascii "%d"), (ascii "productID", ascii "%d"),
          (ascii "continuous", ascii "%s")])
  | confirmTransaction amount fee product reference =>
      exact (by decide +kernel : Frame.IsTemplate ⟨[], ascii "ConfirmTransaction", 8⟩
        confirmTransactionTemplate [(ascii "amount", ascii "%d"), (ascii "fee", ascii "%d"),
          (ascii "productID", ascii "%d"), (ascii "transaction_Reference", quoted (ascii "%s"))])
  | voidTransaction reference =>
      exact (by decide +kernel : Frame.IsTemplate ⟨[], ascii "VoidTransaction", 9⟩
        voidTransactionTemplate [(ascii "transaction_Reference", quoted (ascii "%s"))])

theorem plain_of_textArgs (cmd : BooleanCommand)
    (h : ∀ a ∈ cmd.textArgs, IsPlain a.2.bytes) : ∀ p ∈ cmd.params, p.2.Plain := by
  rintro ⟨n, p⟩ hp
  cases p with
  | int v => trivial
  | bool b => trivial
  | text s => exact h _ ((cmd.mem_textArgs_iff n s).mpr hp)

/-- **Text arguments.** The text of a command says what the caller meant if and only if no text
argument has a quote, a backslash or a control character. -/
theorem conveys_iff_plain (cmd : BooleanCommand) :
    Conveys cmd.text cmd.frame.method cmd.frame.id cmd.textArgs ↔
      ∀ a ∈ cmd.textArgs, IsPlain a.2.bytes := by
  obtain ⟨hnames, hnodup⟩ := cmd.params_names
  have hnames : ∀ p ∈ cmd.params, IsPlain p.1 ∧ IsName p.1 :=
    fun p hp => hnames _ (List.mem_map_of_mem hp)
  rw [text_eq]
  constructor
  · intro h a ha
    have hall := Frame.all_plain_of_conveys cmd.frame_wf hnames hnodup
      (fun n s hs => (cmd.mem_textArgs_iff n s).mpr hs) h cmd.params [] (by simp)
    exact hall _ ((cmd.mem_textArgs_iff a.1 a.2).mp ha)
  · intro h
    exact Frame.conveys_of_plain _ cmd.frame_wf hnames hnodup (cmd.plain_of_textArgs h)
      fun a ha => (cmd.mem_textArgs_iff a.1 a.2).mp ha

def quotedReference : Value :=
  object [(ascii "method", .string (ascii "TransactionComplete")), (ascii "id", .number (ascii "77")),
    (ascii "params", object [(ascii "status", .string (ascii "OK")),
      (ascii "errorDescription", .string []), (ascii "errorCode", .number (ascii "0")),
      (ascii "authorizationDetails", object [(ascii "AmountAuthorized", .number (ascii "450")),
        (ascii "AmountRequested", .number (ascii "450")),
        (ascii "Transaction_Referance", .string (ascii "A\\\"B")), (ascii "PartialPan", .string []),
        (ascii "CardType", .string []), (ascii "Card_ID", .string []),
        (ascii "CardToken", .string [])])])]

def deliveredReference : CString := ⟨ascii "A\"B", by decide⟩

/-- The reference is delivered, but cannot be sent back. -/
theorem voidTransaction_quotedReference :
    (parseTransactionComplete quotedReference.text quotedReference.text.length (.zero 32)
        .zero).ret = .ok ∧
      (parseTransactionComplete quotedReference.text quotedReference.text.length (.zero 32)
        .zero).pmtResp.transactionReference.str = deliveredReference.bytes ∧
      ¬Conveys (voidTransaction deliveredReference).text (ascii "VoidTransaction") 9
        [(ascii "transaction_Reference", deliveredReference)] := by
  refine ⟨by decide +kernel, by decide +kernel, ?_⟩
  intro h
  have hread := h.args _ (List.mem_singleton_self _) 4 (by decide)
  exact absurd hread (by decide +kernel)

end BooleanCommand

end OtiKiosk
