import OtiKiosk.Client.Framing
import OtiKiosk.Client.Handover

/-!
When a completion event is taken for the answer of a command. `_expected_id` is
reset by a call that returns `KIOSK_RET_OK` and by no other one, so what it
holds is a matter of how the last call ended.
-/

namespace OtiKiosk

open Ascii Json

/-- The call that is past the write of `_expected_id`. -/
def AppPc.pending : AppPc → Option Call
  | .idle | .setExpected _ => none
  | .clearReady call | .write call | .waitReady call | .compareLen call | .readLen call
  | .copy call _ | .postDone call _ | .resetExpected call _ => some call

/-- What a call leaves in `_expected_id`. -/
def awaited : Option (Call × Option KioskRet) → ℤ
  | none => -1
  | some (_, some .ok) => -1
  | some (call, _) => call.id

namespace Client

/-- `_expected_id` is what the last call left there, and a pending call is the last one. -/
structure Tracks (s : ClientState) : Prop where
  expected : s.expectedId = awaited s.latest
  latest : ∀ call, s.app.pending = some call → s.latest = some (call, none)

/-- Steps that stay in the call, or leave it alone, change neither. -/
theorem Tracks.mono {s s' : ClientState} (h : Tracks s) (hid : s'.expectedId = s.expectedId)
    (hlatest : s'.latest = s.latest)
    (hpending : ∀ call, s'.app.pending = some call → s.app.pending = some call) : Tracks s' where
  expected := by
    rw [hid, hlatest]
    exact h.expected
  latest := by
    intro call hcall
    rw [hlatest]
    exact h.latest call (hpending call hcall)

theorem Tracks.fail {s : ClientState} (h : Tracks s) {call : Call}
    (hpending : s.app.pending = some call) {ret : KioskRet} (hret : ret ≠ .ok) :
    Tracks (Client.fail s call ret) where
  expected := by
    have hid := h.expected
    rw [h.latest call hpending] at hid
    change s.expectedId = awaited (some (call, some ret))
    rw [hid]
    cases ret with
    | ok => exact (hret rfl).elim
    | _ => rfl
  latest := by
    intro call' hcall
    cases hcall

theorem tracks_start : Tracks start where
  expected := rfl
  latest := by
    intro call hcall
    cases hcall

theorem tracks_step {s s' : ClientState} {a : Action} (h : Tracks s) (hs : Transition s a s') :
    Tracks s' := by
  have hidle : ∀ {app : AppPc}, app.pending = none → ∀ call, app.pending = some call →
      s.app.pending = some call := by
    intro app hnone call hcall
    rw [hnone] at hcall
    cases hcall
  have hstay : ∀ {app app' : AppPc}, s.app = app → app'.pending = app.pending → ∀ call,
      app'.pending = some call → s.app.pending = some call := by
    intro app app' happ hsame call hcall
    rw [happ, ← hsame]
    exact hcall
  cases hs with
  | call id room _ => exact h.mono rfl rfl (hidle rfl)
  | setExpected call _ => exact ⟨rfl, fun c hc => by cases hc; rfl⟩
  | clearReady call happ => exact h.mono rfl rfl (hstay happ rfl)
  | write call happ => exact h.mono rfl rfl (hstay happ rfl)
  | writeFails call happ => exact h.fail (by rw [happ]; rfl) nofun
  | waitReady call happ _ => exact h.mono rfl rfl (hstay happ rfl)
  | appTimeout call happ => exact h.fail (by rw [happ]; rfl) nofun
  | overflow call happ => exact h.fail (by rw [happ]; rfl) nofun
  | compareLen call happ => exact h.mono rfl rfl (hstay happ rfl)
  | readLen call happ => exact h.mono rfl rfl (hstay happ rfl)
  | copy call respLen happ => exact h.mono rfl rfl (hstay happ rfl)
  | postDone call resp happ => exact h.mono rfl rfl (hstay happ rfl)
  | resetExpected call resp _ => exact ⟨rfl, fun c hc => by cases hc⟩
  | read msg incoming _ _ => exact h.mono rfl rfl fun _ => id
  | expected _ _ => exact h.mono rfl rfl fun _ => id
  | unexpected _ => exact h.mono rfl rfl fun _ => id
  | setLen _ => exact h.mono rfl rfl fun _ => id
  | clearDone _ => exact h.mono rfl rfl fun _ => id
  | postReady _ => exact h.mono rfl rfl fun _ => id
  | waitDone _ _ => exact h.mono rfl rfl fun _ => id
  | receiverTimeout _ => exact h.mono rfl rfl fun _ => id
  | zeroLen _ => exact h.mono rfl rfl fun _ => id
  | event _ => exact h.mono rfl rfl fun _ => id
  | answer call bytes _ _ => exact h.mono rfl rfl fun _ => id
  | notify bytes => exact h.mono rfl rfl fun _ => id

/-- In every state that is reached, by any order of steps. -/
theorem tracks {s : ClientState} (h : machine.Reachable s) : Tracks s :=
  h.invariant (fun s hs => by cases hs; exact tracks_start)
    fun _ _ _ hI _ hstep => tracks_step hI (transition_of_step hstep)

theorem expectedId_eq_iff {s : ClientState} (h : Tracks s) (id : ℤ) :
    0 ≤ id ∧ s.expectedId = id ↔
      ∃ call ret, s.latest = some (call, ret) ∧ ret ≠ some .ok ∧ call.id = id ∧ 0 ≤ id := by
  rw [h.expected]
  constructor
  · rintro ⟨hid, heq⟩
    match hlatest : s.latest with
    | none =>
        rw [hlatest, awaited] at heq
        omega
    | some (call, none) =>
        rw [hlatest, awaited] at heq
        · exact ⟨call, none, rfl, nofun, heq, hid⟩
        · nofun
    | some (call, some ret) =>
        rw [hlatest] at heq
        cases ret with
        | ok =>
            rw [awaited] at heq
            omega
        | _ => exact ⟨call, _, rfl, nofun, heq, hid⟩
  · rintro ⟨call, ret, hlatest, hret, hcall, hid⟩
    refine ⟨hid, ?_⟩
    rw [hlatest, ← hcall]
    cases ret with
    | none => rfl
    | some ret =>
        cases ret with
        | ok => exact (hret rfl).elim
        | _ => rfl

end Client

/-- An event is delivered unless it is taken for an answer. -/
theorem kioskMsgReceived_event {expectedId : ℤ} {data : Bytes} {dataLen : ℕ} {stale : Stale}
    {evtId : ℤ} {resp : PaymentResponse}
    (h : (parseTransactionComplete data dataLen stale.strStatus stale.pmtResp).accepted =
      some (evtId, resp)) :
    kioskMsgReceived true stale expectedId data dataLen =
        [.ack (ackText evtId), .transactionComplete resp] ↔
      ¬(0 ≤ evtId ∧ expectedId = evtId) := by
  have hid := parseId_of_accepted h
  rw [kioskMsgReceived, h, hid]
  by_cases htaken : 0 ≤ expectedId ∧ some evtId = some expectedId
  · rw [if_pos htaken]
    obtain ⟨hnonneg, heq⟩ := htaken
    cases heq
    simp [hnonneg]
  · rw [if_neg htaken]
    refine iff_of_true rfl ?_
    rintro ⟨hnonneg, rfl⟩
    exact htaken ⟨hnonneg, rfl⟩

/-- **Events.** In any state the client reaches, a completion event is acknowledged and handed to the
application, unless the last call is pending or failed, and has the id of the event. -/
theorem completionEvent_delivered_iff {s : ClientState} (hs : Client.machine.Reachable s)
    (stale : Stale) (msg : Bytes) {evtId : ℤ} {resp : PaymentResponse}
    (hmsg : (parseTransactionComplete (workBuffer msg) msg.length stale.strStatus
      stale.pmtResp).accepted = some (evtId, resp)) :
    kioskMsgReceived true stale s.expectedId (workBuffer msg) msg.length =
        [.ack (ackText evtId), .transactionComplete resp] ↔
      ¬∃ call ret, s.latest = some (call, ret) ∧ ret ≠ some .ok ∧ call.id = evtId ∧ 0 ≤ evtId := by
  rw [kioskMsgReceived_event hmsg, Client.expectedId_eq_iff (Client.tracks hs)]

def timedOut : ClientState :=
  { Client.start with
    expectedId := 6
    unanswered := [⟨0, 6, 500⟩]
    calls := 1
    latest := some (⟨0, 6, 500⟩, some .commError) }

theorem timedOut_reachable : Client.machine.Reachable timedOut := by
  have hexec : Client.machine.exec (fun _ _ => True) Client.start
      [.call 6 500, .app, .app, .app, .appTimeout] = some timedOut := by decide +kernel
  exact ⟨Client.start, rfl, .of_exec hexec⟩

/-- A later event with another id is delivered. -/
theorem timedOut_event_delivered :
    let msg := (completionEvent (ascii "77")).text
    let stale : Stale := ⟨.zero 32, .zero⟩
    ∃ resp, kioskMsgReceived true stale timedOut.expectedId (workBuffer msg) msg.length =
      [.ack (ackText 77), .transactionComplete resp] := by
  intro msg stale
  have hid : ((parseTransactionComplete (workBuffer msg) msg.length stale.strStatus
      stale.pmtResp).accepted.map Prod.fst) = some 77 := by decide +kernel
  obtain ⟨⟨evtId, resp⟩, hmsg, rfl⟩ := Option.map_eq_some_iff.mp hid
  refine ⟨resp, (completionEvent_delivered_iff timedOut_reachable stale msg hmsg).mpr ?_⟩
  rintro ⟨call, ret, hlatest, -, hcall, -⟩
  cases hlatest
  exact absurd hcall (by decide)

/-- One with the id of the pre-authorization is lost. -/
theorem timedOut_event_swallowed :
    let msg := (completionEvent (ascii "6")).text
    let stale : Stale := ⟨.zero 32, .zero⟩
    Client.machine.Reachable timedOut ∧
      (∃ resp, (parseTransactionComplete (workBuffer msg) msg.length stale.strStatus
        stale.pmtResp).accepted = some (6, resp)) ∧
      kioskMsgReceived true stale timedOut.expectedId (workBuffer msg) msg.length =
        [.response msg] := by
  intro msg stale
  refine ⟨timedOut_reachable, ?_, by decide +kernel⟩
  have hid : ((parseTransactionComplete (workBuffer msg) msg.length stale.strStatus
      stale.pmtResp).accepted.map Prod.fst) = some 6 := by decide +kernel
  obtain ⟨⟨evtId, resp⟩, hmsg, rfl⟩ := Option.map_eq_some_iff.mp hid
  exact ⟨resp, hmsg⟩

end OtiKiosk
