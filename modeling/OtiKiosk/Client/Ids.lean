import OtiKiosk.Client.Numbers
import OtiKiosk.Client.Receive
import OtiKiosk.Commands.Tokens

/-!
Ids of messages. `parse_id` converts whatever number is there to an `int`, where
`parse_json_fields` checks first that nothing is lost. So the id that is compared
and acknowledged is that of the message exactly if the message has an `int` there.
-/

namespace OtiKiosk

open Ascii Json

/-! ### The number of a message -/

def idToken (s : Bytes) (len : ℕ) : Option Bytes := numberToken s len (ascii "$.id")

/-- The id is the number of the message, converted. -/
theorem parseId_eq_idToken (s : Bytes) (len : ℕ) :
    parseId s len = (idToken s len).map fun raw => (strtod raw).1.toInt := by
  rw [parseId, idToken, path_id, mjsonGetNumber_token s len (by decide), Option.map_map]
  rfl

theorem idToken_number {s : Bytes} {len : ℕ} {raw : Bytes} (h : idToken s len = some raw) :
    mjsonLexicon.number raw := by
  rw [idToken, path_id] at h
  exact number_of_token (by decide) h

/-! ### Acknowledgements -/

/-- The text of a JSON object with this number as its id. -/
def HasId (text : Bytes) (x : ℚ) : Prop :=
  ∃ items : Phrase (.items .curly), (Phrase.node .curly items).WF strict ∧
    (Phrase.node .curly items).text = text ∧
    ∃ raw, (Phrase.node .curly items).get (ascii "id") = some (.number raw) ∧
      numeralValue raw = some x

def ackItems (raw : Bytes) : Phrase (.items .curly) :=
  .item [] (.key (ascii "jsonrpc") [] [space]) (.string (ascii "2.0"))
    (.more [] (.item [space] (.key (ascii "result") [] [space]) .true
      (.more [] (.item [space] (.key (ascii "id") [] [space]) (.number raw) (.stop [])))))

theorem ackText_hasId {v : ℤ} (hmin : intMin ≤ v) (hmax : v ≤ intMax) : HasId (ackText v) v := by
  -- `%d` prints an `int` as it is
  have hv : (BitVec.ofInt 32 v).toInt = v := by
    unfold intMin at hmin
    unfold intMax at hmax
    rw [BitVec.toInt_ofInt]
    exact Int.bmod_eq_of_le (by omega) (by omega)
  have hplain : ∀ raw, IsPlain raw → IsChars raw := fun _ h => h.chars
  have hspace : IsBlank [space] := by decide
  refine ⟨ackItems (intText v), ?_, ?_, intText v, ?_, numeralValue_intText v⟩
  · refine ⟨isBlank_nil, ⟨hplain _ (by decide), isBlank_nil, hspace⟩, hplain _ (by decide),
      isBlank_nil, ?_, False.elim⟩
    refine ⟨hspace, ⟨hplain _ (by decide), isBlank_nil, hspace⟩, trivial, isBlank_nil, ?_,
      False.elim⟩
    exact ⟨hspace, ⟨hplain _ (by decide), isBlank_nil, hspace⟩, ⟨intNumeral v, intText_eq v⟩,
      isBlank_nil⟩
  · have htemplate : ackTemplate =
        ascii "\x7b\"jsonrpc\": \"2.0\", \"result\": true, \"id\": " ++ (percent :: 100 :: [rbrace]) := by
      decide +kernel
    have hbefore : ascii "\x7b\"jsonrpc\": \"2.0\", \"result\": true, \"id\": " =
        lbrace :: (quoted (ascii "jsonrpc") ++ colon :: space :: (quoted (ascii "2.0") ++
          comma :: space :: (quoted (ascii "result") ++ colon :: space :: (ascii "true" ++
            comma :: space :: (quoted (ascii "id") ++ [colon, space]))))) := by decide +kernel
    have htext : (Phrase.node .curly (ackItems (intText v))).text =
        ascii "\x7b\"jsonrpc\": \"2.0\", \"result\": true, \"id\": " ++ (intText v ++ [rbrace]) := by
      rw [hbefore]
      simp [ackItems, Phrase.text, Label.text, Bracket.openByte, Bracket.closeByte]
    rw [ackText, htemplate, formatText_literal (by decide +kernel), formatText_int, hv, htext]
    rfl
  · have h₁ : ascii "jsonrpc" ≠ ascii "id" := by decide +kernel
    have h₂ : ascii "result" ≠ ascii "id" := by decide +kernel
    simp [Phrase.get, Phrase.pairs, Located.members, ackItems, Phrase.entries, h₁, h₂]

/-! ### Exact ids -/

/-- Whatever the message is taken for, it is under the number that it has. -/
structure IdsExact (s : Bytes) (len : ℕ) : Prop where
  parsed : ∀ raw, idToken s len = some raw →
    (∃ v : ℤ, numeralValue raw = some (v : ℚ) ∧ intMin ≤ v ∧ v ≤ intMax ∧
      parseId s len = some v) ∨ parseId s len = none
  response : ∀ registered stale expectedId resp,
    .response resp ∈ kioskMsgReceived registered stale expectedId s len →
      ∃ raw, idToken s len = some raw ∧ numeralValue raw = some (expectedId : ℚ)
  ack : ∀ registered stale expectedId text,
    .ack text ∈ kioskMsgReceived registered stale expectedId s len →
      ∃ raw x, idToken s len = some raw ∧ numeralValue raw = some x ∧ HasId text x

theorem mem_eventEffects {registered : Bool} {event : Option (ℤ × PaymentResponse)} :
    (∀ resp, .response resp ∉ eventEffects registered event) ∧
      ∀ text, .ack text ∈ eventEffects registered event → ∃ e ∈ event, text = ackText e.1 := by
  cases event with
  | none => simp [eventEffects]
  | some e =>
      cases registered with
      | false => simp [eventEffects]
      | true => simp [eventEffects]

/-- **Exact ids.** A message is taken under its own id, and acknowledged under it, if and only if the
number there, if there is one, is an integer that an `int` can hold. -/
theorem ids_exact_iff (s : Bytes) (len : ℕ) :
    IdsExact s len ↔ ∀ raw, idToken s len = some raw →
      ∃ v : ℤ, numeralValue raw = some (v : ℚ) ∧ intMin ≤ v ∧ v ≤ intMax := by
  have hparse := parseId_eq_idToken s len
  constructor
  · intro h raw hraw
    rcases h.parsed raw hraw with ⟨v, hvalue, hmin, hmax, -⟩ | hnone
    · exact ⟨v, hvalue, hmin, hmax⟩
    · rw [hparse, hraw] at hnone
      cases hnone
  · intro h
    -- an id that is parsed is the number of the message
    have hexact : ∀ id, parseId s len = some id →
        ∃ raw, idToken s len = some raw ∧ numeralValue raw = some (id : ℚ) ∧ intMin ≤ id ∧
          id ≤ intMax := by
      intro id hid
      rw [hparse, Option.map_eq_some_iff] at hid
      obtain ⟨raw, hraw, rfl⟩ := hid
      obtain ⟨v, hvalue, hmin, hmax⟩ := h raw hraw
      rw [toInt_of_value (idToken_number hraw) hvalue hmin hmax]
      exact ⟨raw, hraw, hvalue, hmin, hmax⟩
    refine ⟨?_, ?_, ?_⟩
    · intro raw hraw
      obtain ⟨v, hvalue, hmin, hmax⟩ := h raw hraw
      refine .inl ⟨v, hvalue, hmin, hmax, ?_⟩
      rw [hparse, hraw, Option.map_some, toInt_of_value (idToken_number hraw) hvalue hmin hmax]
    · intro registered stale expectedId resp hmem
      rw [kioskMsgReceived] at hmem
      split_ifs at hmem with hresponse
      · obtain ⟨raw, hraw, hvalue, -⟩ := hexact expectedId hresponse.2
        exact ⟨raw, hraw, hvalue⟩
      · exact (mem_eventEffects.1 resp hmem).elim
    · intro registered stale expectedId text hmem
      rw [kioskMsgReceived] at hmem
      split_ifs at hmem with hresponse
      · simp at hmem
      · obtain ⟨event, hevent, rfl⟩ := mem_eventEffects.2 text hmem
        obtain ⟨raw, hraw, hvalue, hmin, hmax⟩ := hexact event.1 (parseId_of_accepted hevent)
        exact ⟨raw, event.1, hraw, hvalue, ackText_hasId hmin hmax⟩

def answerUnder (id : Bytes) : Bytes :=
  (object [(ascii "jsonrpc", .string (ascii "2.0")), (ascii "result", .true),
    (ascii "id", .number id)]).text

/-- An answer to no command is taken as that to command 6. -/
theorem fractionalId_taken :
    ¬IdsExact (answerUnder (ascii "6.5")) (answerUnder (ascii "6.5")).length ∧
      idToken (answerUnder (ascii "6.5")) (answerUnder (ascii "6.5")).length = some (ascii "6.5") ∧
      kioskMsgReceived true ⟨.zero 32, .zero⟩ 6 (answerUnder (ascii "6.5"))
        (answerUnder (ascii "6.5")).length = [.response (answerUnder (ascii "6.5"))] := by
  have htoken : idToken (answerUnder (ascii "6.5")) (answerUnder (ascii "6.5")).length =
      some (ascii "6.5") := by decide +kernel
  have hvalue : numeralValue (ascii "6.5") = some (13 / 2) := by decide +kernel
  have hparse : parseId (answerUnder (ascii "6.5")) (answerUnder (ascii "6.5")).length = some 6 := by
    decide +kernel
  have htaken : kioskMsgReceived true ⟨.zero 32, .zero⟩ 6 (answerUnder (ascii "6.5"))
      (answerUnder (ascii "6.5")).length = [.response (answerUnder (ascii "6.5"))] := by
    rw [kioskMsgReceived, if_pos ⟨by decide, hparse⟩, List.take_length]
  refine ⟨fun h => ?_, htoken, htaken⟩
  obtain ⟨raw, hraw, hsix⟩ :=
    h.response true ⟨.zero 32, .zero⟩ 6 _ (htaken ▸ List.mem_singleton_self _)
  rw [htoken, Option.some.injEq] at hraw
  rw [← hraw, hvalue] at hsix
  exact absurd hsix (by decide +kernel)

end OtiKiosk
