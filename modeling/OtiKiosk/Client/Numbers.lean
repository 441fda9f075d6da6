import OtiKiosk.Client.Encoding
import OtiKiosk.Commands.Provenance
import OtiKiosk.Mjson.Exact

/-!
The numeric arguments of the commands. The templates print them with `%d`, which
takes an `int`, and all but the currency code are unsigned: a value of `2 ^ 31`
or more is sent as a negative number.
-/

namespace OtiKiosk

open Ascii Json

/-! ### Decimal texts -/

theorem digitValue_digit : ∀ d, d < 10 → digitValue (48 + UInt8.ofNat d) = d := by decide

theorem ofDigits_natText (n : ℕ) : Nat.ofDigits 10 ((natText n).reverse.map digitValue) = n := by
  rw [natText]
  split_ifs with h
  · rw [h]
    rfl
  · rw [List.map_reverse, List.map_map, List.map_reverse, List.reverse_reverse]
    have hdigits : (Nat.digits 10 n).map (digitValue ∘ fun d => 48 + UInt8.ofNat d) =
        Nat.digits 10 n := by
      refine (List.map_congr_left fun d hd => ?_).trans (List.map_id _)
      exact digitValue_digit d (Nat.digits_lt_base (by decide) hd)
    rw [hdigits, Nat.ofDigits_digits]

theorem scanSign_intText (v : ℤ) : scanSign (intText v) = (decide (v < 0), natText v.natAbs) := by
  obtain ⟨c, s, htext, hc, -⟩ := (intNumeral v).int_cons
  have hc' : c ≠ minus ∧ c ≠ plus := by
    constructor
    · rintro rfl
      cases hc
    · rintro rfl
      cases hc
  rw [intText]
  split_ifs with hv
  · simp [scanSign, hv]
  · have htext : natText v.natAbs = c :: s := htext
    rw [htext, scanSign, if_neg hc'.1, if_neg hc'.2, decide_eq_false hv]

/-- There is neither a fraction nor an exponent to be scanned. -/
theorem scanRatio_natText (v : ℤ) : scanRatio (natText v.natAbs) = some ((v.natAbs, 1), []) := by
  have hhex := (intNumeral v).not_hex
  have hdigits : scanDigits isDigit (natText v.natAbs ++ ([] ++ [])) =
      some (natText v.natAbs, [], []) :=
    scanDigits_numeral (natText_digits v.natAbs) (.inl rfl) fun c hc => by cases hc
  simp only [intNumeral, List.append_nil] at hhex hdigits
  rw [scanRatio, hhex, Option.bind_none, scanNumeral.eq_def]
  simp only [hdigits, scanExponent, List.append_nil, ofDigits_natText]
  simp [scaled]

/-- A decimal text is read as the nearest number. -/
theorem strtod_intText (v : ℤ) :
    (strtod (intText v)).1 = .ofRatio (decide (v < 0)) v.natAbs 1 := by
  have hnumber := (intNumeral v).lexicon
  rw [← intText_eq] at hnumber
  obtain ⟨c, s, htext, hc⟩ := hnumber.1
  have hspace : (intText v).dropWhile isSpace = intText v := by
    rw [htext]
    exact scanSign_head hc s
  rw [strtod, hspace, scanSign_intText]
  simp only [scanMagnitude_of_ratio (scanRatio_natText v)]

/-- A decimal text says which number it was printed from. -/
theorem numeralValue_intText (v : ℤ) : numeralValue (intText v) = some (v : ℚ) := by
  rw [numeralValue, scanSign_intText]
  simp only [scanRatio_natText, Option.map_some, signedRatio, Nat.cast_one, div_one, decide_eq_true_eq]
  refine congrArg some ?_
  split_ifs with hv
  · have habs : (v.natAbs : ℤ) = -v := Int.ofNat_natAbs_of_nonpos hv.le
    have hcast : ((v.natAbs : ℤ) : ℚ) = ((-v : ℤ) : ℚ) := congrArg _ habs
    rw [Int.cast_natCast, Int.cast_neg] at hcast
    rw [hcast, neg_neg]
  · have habs : (v.natAbs : ℤ) = v := Int.natAbs_of_nonneg (not_lt.mp hv)
    have hcast : ((v.natAbs : ℤ) : ℚ) = (v : ℚ) := congrArg _ habs
    rwa [Int.cast_natCast] at hcast

/-! ### Numbers among the parameters -/

/-- The command text is a JSON object, and the numbers at these names of its parameters are the
values of the arguments. -/
def CarriesNumbers (cmd : Bytes) (args : List (Bytes × ℕ)) : Prop :=
  ∃ items : Phrase (.items .curly), (Phrase.node .curly items).WF strict ∧
    (Phrase.node .curly items).text = cmd ∧
    ∀ a ∈ args, ∃ raw, (Phrase.node .curly items).getAt [ascii "params", a.1] =
      some (.number raw) ∧ numeralValue raw = some (a.2 : ℚ)

/-- Members that the same place of a text is found for have the same text. -/
theorem text_of_found {s : Bytes} {u v : Located} (hu : u.Member s) (hv : v.Member s)
    (h : Found.of (some u) = Found.of (some v)) : u.value.text = v.value.text := by
  rw [Found.of, Found.of, Found.mk.injEq] at h
  obtain ⟨-, hoff, hlen⟩ := h
  have hvtext := hv.inText.text
  rw [← hoff] at hvtext
  exact (List.prefix_of_prefix_length_le hu.inText.text hvtext hlen.le).eq_of_length hlen

theorem sticky_of_getAt {v w : Value} {a m : Bytes} (h : v.getAt [a, m] = some w) :
    ∃ j, Located.sticky ⟨0, v⟩ a m = some ⟨j, w⟩ := by
  rw [← Located.at_value ⟨0, v⟩, Option.map_eq_some_iff] at h
  obtain ⟨u, hu, rfl⟩ := h
  exact ⟨u.off, by rw [sticky_eq, hu]; rfl⟩

namespace Frame

variable (f : Frame)

theorem tree_getAt {ps : List (Bytes × Param)} (hnodup : (ps.map Prod.fst).Nodup)
    {n : Bytes} {p : Param} (hp : (n, p) ∈ ps) :
    (f.tree ps).getAt [ascii "params", n] = some p.value := by
  have h₁ : ascii "jsonrpc" ≠ ascii "params" := by decide +kernel
  have h₂ : ascii "method" ≠ ascii "params" := by decide +kernel
  obtain ⟨j, hfind⟩ := paramItems_find hnodup hp [] 1
  have hparams : (f.tree ps).get (ascii "params") = some (.node .curly (paramItems [] ps)) := by
    simp [Phrase.get, Phrase.pairs, Located.members, tree, Phrase.entries, h₁, h₂]
  have hmember : (Phrase.node .curly (paramItems [] ps)).get n = some p.value := by
    have hentry : ((paramItems [] ps).entries 1).find? ((fun e => decide (e.1 = some n)) ∘
        fun e => (e.1, e.2.value)) = some (some n, ⟨j, p.value⟩) := hfind
    rw [Phrase.get, Phrase.pairs, Located.members, List.find?_map, hentry]
    rfl
  rw [Phrase.getAt, hparams, Option.bind_some, Phrase.getAt, hmember]
  rfl

/-- A number is sent as it is exactly if it is not negative as an `int`. -/
theorem carries_iff (hf : f.WF) {ps : List (Bytes × Param)}
    (hnames : ∀ p ∈ ps, IsPlain p.1 ∧ IsName p.1) (hnodup : (ps.map Prod.fst).Nodup)
    (hplain : ∀ p ∈ ps, p.2.Plain) {args : List (Bytes × ℕ)}
    (hargs : ∀ a ∈ args, ∃ v : BitVec 32, (a.1, .int v) ∈ ps ∧ v.toNat = a.2) :
    CarriesNumbers (f.tree ps).text args ↔ ∀ a ∈ args, a.2 < 2 ^ 31 := by
  have hwf := f.tree_wf hf (fun p hp => (hnames p hp).1) hplain
  have hden := f.tree_denotes hwf
  have hint : ∀ v : BitVec 32, v.toInt = (v.toNat : ℤ) ↔ v.toNat < 2 ^ 31 := by
    intro v
    rw [BitVec.toInt_eq_toNat_cond]
    split_ifs <;> omega
  constructor
  · rintro ⟨items, hitems, htext, hread⟩ a ha
    obtain ⟨raw, hraw, hvalue⟩ := hread a ha
    obtain ⟨v, hv, hnat⟩ := hargs a ha
    have hret : 0 ≤ (mjson (f.tree ps).text (f.tree ps).text.length).1 := by
      rw [hden.mjson_eq]
      exact Int.natCast_nonneg _
    rw [← htext] at hret hden
    have hden' : Denotes (Phrase.node .curly items).text (Phrase.node .curly items).text.length
        (.node .curly items) 0 :=
      .of_text (hitems.mono strict_le) (depth_of_mjson (hitems.mono strict_le) hret)
        ⟨.curly, items, rfl⟩
    -- both trees have the number at the same place of the text
    obtain ⟨j, hfound⟩ := sticky_of_getAt hraw
    obtain ⟨k, hfound'⟩ := sticky_of_getAt (f.tree_getAt hnodup hv)
    have hname := (hnames _ hv).2
    have hparams : IsName (ascii "params") := by decide
    have hsame := (hden'.mjsonFind_sticky hparams hname).symm.trans
      (hden.mjsonFind_sticky hparams hname)
    rw [hfound, hfound'] at hsame
    have hrawtext : raw = intText v.toInt :=
      text_of_found (member_of_sticky hden'.in hfound) (member_of_sticky hden.in hfound') hsame
    rw [hrawtext, numeralValue_intText, ← hnat, Option.some.injEq] at hvalue
    rw [← hnat, ← hint]
    exact_mod_cast hvalue
  · intro hsmall
    refine ⟨_, hwf, rfl, fun a ha => ?_⟩
    obtain ⟨v, hv, hnat⟩ := hargs a ha
    refine ⟨_, f.tree_getAt hnodup hv, ?_⟩
    rw [numeralValue_intText, (hint v).mpr (hnat ▸ hsmall a ha), hnat]
    rfl

end Frame

namespace BooleanCommand

def numberArgs : BooleanCommand → List (Bytes × ℕ)
  | .preAuthorize p | .payTransaction p =>
      [(ascii "amount", p.amountCents.toNat), (ascii "currency", p.currencyCode.toNat),
        (ascii "timeout", p.timeoutSec.toNat), (ascii "fee", p.feeCents.toNat),
        (ascii "productID", p.productId.toNat)]
  | .confirmTransaction amount fee product _ =>
      [(ascii "amount", amount.toNat), (ascii "fee", fee.toNat), (ascii "productID", product.toNat)]
  | .showMessage _ _ | .voidTransaction _ => []

theorem param_of_numberArg (cmd : BooleanCommand) {a : Bytes × ℕ} (ha : a ∈ cmd.numberArgs) :
    ∃ v : BitVec 32, (a.1, .int v) ∈ cmd.params ∧ v.toNat = a.2 := by
  have hcurrency : ∀ c : BitVec 16, (c.setWidth 32).toNat = c.toNat := by
    intro c
    rw [BitVec.toNat_setWidth, Nat.mod_eq_of_lt (c.isLt.trans (by decide))]
  cases cmd with
  | showMessage line1 line2 => cases ha
  | voidTransaction reference => cases ha
  | preAuthorize p | payTransaction p =>
      simp only [numberArgs, List.mem_cons, List.not_mem_nil, or_false] at ha
      rcases ha with rfl | rfl | rfl | rfl | rfl
      · exact ⟨p.amountCents, by simp [params], rfl⟩
      · exact ⟨p.currencyCode.setWidth 32, by simp [params], hcurrency _⟩
      · exact ⟨p.timeoutSec, by simp [params], rfl⟩
      · exact ⟨p.feeCents, by simp [params], rfl⟩
      · exact ⟨p.productId, by simp [params], rfl⟩
  | confirmTransaction amount fee product reference =>
      simp only [numberArgs, List.mem_cons, List.not_mem_nil, or_false] at ha
      rcases ha with rfl | rfl | rfl
      · exact ⟨amount, by simp [params], rfl⟩
      · exact ⟨fee, by simp [params], rfl⟩
      · exact ⟨product, by simp [params], rfl⟩

theorem text_carries_iff (cmd : BooleanCommand) (hplain : ∀ a ∈ cmd.textArgs, IsPlain a.2.bytes) :
    CarriesNumbers cmd.text cmd.numberArgs ↔ ∀ a ∈ cmd.numberArgs, a.2 < 2 ^ 31 := by
  obtain ⟨hnames, hnodup⟩ := cmd.params_names
  rw [text_eq]
  exact cmd.frame.carries_iff cmd.frame_wf (fun p hp => hnames _ (List.mem_map_of_mem hp)) hnodup
    (cmd.plain_of_textArgs hplain) fun a ha => cmd.param_of_numberArg ha

/-- **Numeric arguments.** The text of a command that starts or confirms a payment says which
numbers were given if and only if all of them, but for the currency code, are less than `2 ^ 31`. -/
theorem numbers_carried_iff (p : PaymentParameters) (amount fee product : BitVec 32)
    (reference : CString) :
    (CarriesNumbers (preAuthorize p).text (preAuthorize p).numberArgs ↔
      p.amountCents < 2 ^ 31 ∧ p.timeoutSec < 2 ^ 31 ∧ p.feeCents < 2 ^ 31 ∧ p.productId < 2 ^ 31) ∧
    (CarriesNumbers (payTransaction p).text (payTransaction p).numberArgs ↔
      p.amountCents < 2 ^ 31 ∧ p.timeoutSec < 2 ^ 31 ∧ p.feeCents < 2 ^ 31 ∧ p.productId < 2 ^ 31) ∧
    (IsPlain reference.bytes →
      (CarriesNumbers (confirmTransaction amount fee product reference).text
          (confirmTransaction amount fee product reference).numberArgs ↔
        amount < 2 ^ 31 ∧ fee < 2 ^ 31 ∧ product < 2 ^ 31)) := by
  have hlt : ∀ v : BitVec 32, v < 2 ^ 31 ↔ v.toNat < 2 ^ 31 := fun v => BitVec.lt_def
  have hcurrency : p.currencyCode.toNat < 2 ^ 31 := p.currencyCode.isLt.trans (by decide)
  refine ⟨?_, ?_, fun hplain => ?_⟩
  · rw [text_carries_iff _ fun a ha => by cases ha]
    simp only [numberArgs, List.forall_mem_cons, hcurrency, hlt, true_and]
    simp
  · rw [text_carries_iff _ fun a ha => by cases ha]
    simp only [numberArgs, List.forall_mem_cons, hcurrency, hlt, true_and]
    simp
  · have hargs : ∀ a ∈ (confirmTransaction amount fee product reference).textArgs,
        IsPlain a.2.bytes := by
      intro a ha
      obtain rfl := List.mem_singleton.mp ha
      exact hplain
    rw [text_carries_iff _ hargs]
    simp only [numberArgs, List.forall_mem_cons, hlt]
    simp

theorem smallNumbers_carried :
    CarriesNumbers (confirmTransaction 450 0 7 ⟨ascii "R1", by decide⟩).text
      [(ascii "amount", 450), (ascii "fee", 0), (ascii "productID", 7)] :=
  ((numbers_carried_iff payment 450 0 7 ⟨ascii "R1", by decide⟩).2.2 (by decide)).mpr (by decide)

def bigPayment : PaymentParameters := ⟨2147483648, 0, 0, 978, 10, false⟩

/-- The terminal is told a negative amount. -/
theorem bigPayment_negative :
    ¬CarriesNumbers (preAuthorize bigPayment).text (preAuthorize bigPayment).numberArgs ∧
      (preAuthorize bigPayment).text =
        ascii "\x7b\"jsonrpc\":\"2.0\",\"method\":\"PreAuthorize\", \"params\": \x7b\"amount\":-2147483648, \"currency\":978, \"timeout\":10, \"fee\":0, \"productID\":0, \"continuous\":false\x7d, \"id\":6\x7d" := by
  refine ⟨?_, by decide +kernel⟩
  rw [text_carries_iff _ fun a ha => by cases ha]
  intro h
  exact absurd (h (ascii "amount", 2147483648) List.mem_cons_self) (by decide)

end BooleanCommand

end OtiKiosk
