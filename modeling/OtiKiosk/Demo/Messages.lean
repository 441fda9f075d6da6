import OtiKiosk.Demo.Alternation

/-!
The messages to the clients. Whatever happens in a run, what is pending for a client is
the whole text that `cJSON_PrintUnformatted` returns for the result of a payment that
was reported: the array that it is copied to is long enough for every status.
-/

namespace OtiKiosk

open Ascii Json

namespace Demo

def messageOf (status : TransactionStatus) : Bytes :=
  (transactionMessage (transStatusToText status)).text false

theorem messageOf_length (status : TransactionStatus) : (messageOf status).length < 256 := by
  cases status <;> decide

/-- `snprintf` cuts nothing off. -/
theorem sendJsonMessage_messageOf (s : Demo) (status : TransactionStatus) (hwsi : s.wsi.isSome) :
    (s.sendJsonMessage (transStatusToText status)).jsonMessage = messageOf status :=
  (if_pos hwsi).trans (List.take_of_length_le (Nat.le_of_lt_succ (messageOf_length status)))

def Composed (s : Demo) : Prop := s.sendMessageFlag = true →
  ∃ resp, .completed resp ∈ s.history ∧ s.jsonMessage = messageOf resp.status

variable {s s' : Demo} {a : Action}

theorem mem_of_lastCompletion {history : List DemoEvent} {resp : PaymentResponse}
    (h : lastCompletion history = some resp) : .completed resp ∈ history := by
  induction history with
  | nil => cases h
  | cons e history ih =>
      cases e with
      | completed resp' =>
          obtain rfl := Option.some.inj h
          exact List.mem_cons_self
      | _ => exact List.mem_cons_of_mem _ (ih h)

theorem Composed.move (h : Composed s) (hflag : s'.sendMessageFlag = s.sendMessageFlag)
    (hmessage : s'.jsonMessage = s.jsonMessage) (hhistory : s.history ⊆ s'.history) :
    Composed s' := by
  intro hs'
  obtain ⟨resp, hmem, htext⟩ := h (hflag ▸ hs')
  exact ⟨resp, hhistory hmem, hmessage.trans htext⟩

theorem composed_step (h : Composed s) (hremembers : Remembers s) (hs : Transition s a s') :
    Composed s' := by
  cases hs with
  | completeJson hpc =>
      intro hflag
      by_cases hwsi : s.wsi.isSome = true
      · have hreported : s.Reported := by
          refine .inr (.inr ?_)
          rw [hpc]
          rfl
        obtain ⟨resp, hresp⟩ := Option.isSome_iff_exists.mp (hremembers.reported hreported)
        refine ⟨resp, mem_of_lastCompletion hresp, ?_⟩
        rw [← hremembers.response resp hresp]
        exact sendJsonMessage_messageOf s _ hwsi
      · -- without a client, nothing is made
        have hsame : ∀ content, s.sendJsonMessage content = s := fun content => by
          rw [sendJsonMessage, if_neg hwsi, if_neg hwsi]
        rw [hsame] at hflag ⊢
        exact h hflag
  | writeable client hpc hclient => exact fun hflag => by cases hflag
  | shows | preAuthorize | accepted | settle | completion | established | closed =>
      exact h.move rfl rfl (List.subset_cons_self _ _)
  | _ => exact h.move rfl rfl (List.Subset.refl _)

/-- **What is pending is whole**: in every state of every run in which a message is pending, it is
the text that `cJSON_PrintUnformatted` returns, if there is memory, for the status of a response
that was reported, and none of it is missing. -/
theorem pending_message (A : Allocator) (h : machine.Reachable s)
    (hflag : s.sendMessageFlag = true) :
    ∃ resp, .completed resp ∈ s.history ∧ s.jsonMessage.length < 256 ∧
      (A.Grants → cJsonPrintUnformatted A (transactionMessage (transStatusToText resp.status)) =
        some (some (s.jsonMessage ++ [nul]))) ∧
      ∃ v : Value, v.WF strict ∧ s.jsonMessage = v.text ∧
        v.datum.get (ascii "type") = some (.string (ascii "transaction")) ∧
        v.datum.get (ascii "content") = some (.string (transStatusToText resp.status).bytes) := by
  have hboth : Remembers s ∧ Composed s := by
    apply h.invariant (I := fun s => Remembers s ∧ Composed s)
    · intro s hs
      refine ⟨remembers_start hs, fun hflag => ?_⟩
      rw [hs.sendMessageFlag] at hflag
      cases hflag
    · rintro s a s' ⟨hremembers, hcomposed⟩ _ hstep
      have hs := transition_of_step hstep
      exact ⟨remembers_step hremembers hs, composed_step hcomposed hremembers hs⟩
  obtain ⟨resp, hmem, hmessage⟩ := hboth.2 hflag
  have hlength := messageOf_length resp.status
  refine ⟨resp, hmem, ?_, fun hgrants => ?_, ?_⟩
  · rwa [hmessage]
  · obtain ⟨result, hprint, htext, hsome⟩ := cjsonPrint_returns A false
      (transactionMessage (transStatusToText resp.status))
    have hlong : (messageOf resp.status).length + 2 ≤ maxSize := by
      have hmax : maxSize = 2147483647 := rfl
      omega
    obtain ⟨s', rfl⟩ := Option.isSome_iff_exists.mp
      ((hsome hgrants).mpr ⟨⟨trivial, trivial, trivial⟩, hlong⟩)
    rw [cJsonPrintUnformatted, hprint, (htext s' rfl).2, hmessage]
    rfl
  · obtain ⟨hwf, hdatum, -⟩ := stands_of_plain false
      (c := transactionMessage (transStatusToText resp.status)) ⟨trivial, trivial, trivial⟩ 0
    refine ⟨_, hwf, hmessage, ?_, ?_⟩
    · rw [hdatum]
      rfl
    · rw [hdatum]
      rfl

/-- Client 1 was served, and the message waits for it. -/
theorem pending_message_served :
    ∃ s resp, machine.Reachable s ∧ .completed resp ∈ s.history ∧ s.jsonMessage.length < 256 ∧
      cJsonPrintUnformatted .zeros (transactionMessage (transStatusToText resp.status)) =
        some (some (s.jsonMessage ++ [nul])) := by
  have hexec : (machine.exec (fun _ _ => True) boot (servedRun [] ++ [.main, .main])).map
      (fun s => s.sendMessageFlag) = some true := by decide
  obtain ⟨s, hs, hflag⟩ := Option.map_eq_some_iff.mp hexec
  have hreach : machine.Reachable s := ⟨boot, boot_start, .of_exec hs⟩
  obtain ⟨resp, hmem, hlength, hprint, -⟩ := pending_message .zeros hreach hflag
  exact ⟨s, resp, hreach, hmem, hlength, hprint Allocator.zeros_grants⟩

end Demo

end OtiKiosk
