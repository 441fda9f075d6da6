import OtiKiosk.Client.Freshness
import OtiKiosk.Client.Operations

/-!
What a call of `send_receive` leaves behind. It ends in five places, and resets
`_expected_id` and posts `sema_resp_done` in one of them. The record of a run keeps
count of what the last call took and posted, and of what the receiver took for a
response.
-/

namespace OtiKiosk

open Ascii Json

/-- The receiver treats the message in the buffer as a response. -/
def ReceiverPc.responding : ReceiverPc → Prop
  | .setLen | .clearDone | .postReady | .waitDone | .zeroLen => True
  | .read | .test | .event => False

def ReceiverPc.unserved (respDone : ℕ) : ReceiverPc → Prop
  | .setLen | .clearDone => True
  | .postReady | .waitDone => respDone = 0
  | .read | .test | .zeroLen | .event => False

instance (respDone : ℕ) : (pc : ReceiverPc) → Decidable (pc.unserved respDone)
  | .setLen | .clearDone => isTrue trivial
  | .postReady | .waitDone => inferInstanceAs (Decidable (respDone = 0))
  | .read | .test | .zeroLen | .event => isFalse id

def AppPc.comparing : AppPc → Option Call
  | .compareLen call => some call
  | _ => none

def AppPc.returning : AppPc → Option Call
  | .resetExpected call _ => some call
  | _ => none

namespace Client

inductive SendAction
  /-- `send_receive` is called with this command. -/
  | send (cmd : Bytes) (room : ℕ)
  /-- Any step of the client; the id in a call is that of some command. -/
  | other (a : Action)
  deriving DecidableEq

def sendStep (s : ClientState) : SendAction → Option ClientState
  | .send cmd room =>
      match parseId cmd cmd.length with
      -- the call returns at once
      | none => if s.app = .idle then some s else none
      | some id => step s (.call id room)
  | .other a => step s a

def sending : Machine ClientState SendAction where
  start s := s = start
  step := sendStep

/-- What happened to the semaphores in the last call, and to the message in the buffer. -/
structure Record where
  /-- The signals of `sema_resp_ready` that the call consumed. -/
  taken : ℕ
  /-- The signals of `sema_resp_done` that it posted. -/
  posted : ℕ
  /-- The number of the call that was pending when the receiver tested the message. -/
  serving : Option ℕ
  /-- Whether a call was running when the message was read. -/
  during : Bool
  deriving DecidableEq

def Record.first : Record := ⟨0, 0, none, false⟩

def Record.begin (r : Record) : Record := { r with taken := 0, posted := 0 }

def Record.noteApp (app : AppPc) (r : Record) : Record :=
  match app with
  | .waitReady _ => { r with taken := r.taken + 1 }
  | .postDone _ _ => { r with posted := r.posted + 1 }
  | _ => r

def Record.noteReceiver (s : ClientState) (r : Record) : Record :=
  match s.receiver with
  | .read => { r with during := s.app ≠ .idle }
  | .test => { r with serving := s.app.pending.map (·.number) }
  | _ => r

def note (s : ClientState) (a : SendAction) (r : Record) : Record :=
  match a with
  | .send _ _ => r.begin
  | .other (.call _ _) => r.begin
  | .other .app => r.noteApp s.app
  | .other .receiver => r.noteReceiver s
  | .other _ => r

def recording : Machine (ClientState × Record) SendAction := sending.observe .first note

def Unserved (s : ClientState) : Prop := s.receiver.unserved s.respDone

instance : DecidablePred Unserved := fun s =>
  inferInstanceAs (Decidable (s.receiver.unserved s.respDone))

/-- A call that has returned leaves nothing behind. -/
structure Restored (s : ClientState) (r : Record) : Prop where
  expected : s.app = .idle → s.expectedId = -1
  posted : s.app = .idle → r.taken ≤ 1 ∧ r.posted = r.taken
  /-- No message that came between two calls is treated as a response. -/
  response : s.receiver.responding → r.during = true
  /-- The receiver waits for a running call, or for none. -/
  waiting : s.receiver = .waitDone → s.respDone = 0 →
    ∃ call, s.app.pending = some call ∧ r.serving = some call.number

/-- The steps after which something is left behind are not taken. -/
structure Restoring (s : ClientState × Record) (a : SendAction) : Prop where
  written : a = .other .writeFails → ∀ call ∈ s.1.app.pending, call.id = -1
  answered : a = .other .appTimeout → ∀ call ∈ s.1.app.pending, call.id = -1
  fits : a = .other .app → ∀ call ∈ s.1.app.comparing, s.1.currentRespLen ≤ call.room
  ends : a = .other .app → ∀ call ∈ s.1.app.returning, ¬Unserved s.1
  sets : a = .other .app → ∀ call ∈ s.1.app.setting, 0 ≤ call.id →
    s.1.receiver = .test → s.2.during = false → bufferedId s.1 ≠ some call.id

instance (s : ClientState × Record) (a : SendAction) : Decidable (Restoring s a) :=
  decidable_of_iff
    ((a = .other .writeFails → ∀ call ∈ s.1.app.pending, call.id = -1) ∧
      (a = .other .appTimeout → ∀ call ∈ s.1.app.pending, call.id = -1) ∧
      (a = .other .app → ∀ call ∈ s.1.app.comparing, s.1.currentRespLen ≤ call.room) ∧
      (a = .other .app → ∀ call ∈ s.1.app.returning, ¬Unserved s.1) ∧
      (a = .other .app → ∀ call ∈ s.1.app.setting, 0 ≤ call.id → s.1.receiver = .test →
        s.2.during = false → bufferedId s.1 ≠ some call.id))
    ⟨fun h => ⟨h.1, h.2.1, h.2.2.1, h.2.2.2.1, h.2.2.2.2⟩,
      fun h => ⟨h.written, h.answered, h.fits, h.ends, h.sets⟩⟩

def Counted (app : AppPc) (r : Record) : Prop :=
  match app with
  | .idle => r.taken ≤ 1 ∧ r.posted = r.taken
  | .setExpected _ | .clearReady _ | .write _ | .waitReady _ => r.taken = 0 ∧ r.posted = 0
  | .compareLen _ | .readLen _ | .copy _ _ | .postDone _ _ => r.taken = 1 ∧ r.posted = 0
  | .resetExpected _ _ => r.taken = 1 ∧ r.posted = 1

/-- What holds along such runs. -/
structure Clean (s : ClientState) (r : Record) : Prop where
  idle : s.app.pending = none → s.expectedId = -1
  current : ∀ call, s.app.pending = some call → s.expectedId = call.id
  counted : Counted s.app r
  /-- The receiver serves the pending call, or has been served. -/
  served : Unserved s →
    ∃ call, s.app.pending = some call ∧ r.serving = some call.number ∧ 0 ≤ call.id
  response : s.receiver.responding → r.during = true
  test : s.receiver = .test → r.during = false → 0 ≤ s.expectedId →
    bufferedId s ≠ some s.expectedId

theorem Clean.restored {s : ClientState} {r : Record} (h : Clean s r) : Restored s r where
  expected := by
    intro happ
    exact h.idle (by rw [happ]; rfl)
  posted := by
    intro happ
    have hcounted := h.counted
    rw [happ] at hcounted
    exact hcounted
  response := h.response
  waiting := by
    intro hreceiver hdone
    have hunserved : Unserved s := by
      rw [Unserved, hreceiver]
      exact hdone
    obtain ⟨call, hcall, hserving, -⟩ := h.served hunserved
    exact ⟨call, hcall, hserving⟩

theorem clean_start : Clean start .first where
  idle := fun _ => rfl
  current := by
    intro call hcall
    cases hcall
  counted := ⟨Nat.zero_le 1, rfl⟩
  served := fun h => h.elim
  response := fun h => h.elim
  test := by
    intro h
    cases h

/-- Steps of the application inside of a call. -/
theorem Clean.app {s s' : ClientState} {r r' : Record} (h : Clean s r)
    (hpending : s'.app.pending = s.app.pending) (hid : s'.expectedId = s.expectedId)
    (hcounted : Counted s'.app r') (hreceiver : s'.receiver = s.receiver)
    (hdone : s.respDone ≤ s'.respDone) (hbuffer : bufferedId s' = bufferedId s)
    (hserving : r'.serving = r.serving) (hduring : r'.during = r.during) : Clean s' r' where
  idle := by
    rw [hpending, hid]
    exact h.idle
  current := by
    rw [hpending, hid]
    exact h.current
  counted := hcounted
  served := by
    intro hunserved
    rw [hpending, hserving]
    apply h.served
    rw [Unserved, hreceiver] at hunserved
    rw [Unserved]
    cases hpc : s.receiver <;> simp only [hpc, ReceiverPc.unserved] at hunserved ⊢ <;> omega
  response := by
    rw [hreceiver, hduring]
    exact h.response
  test := by
    rw [hreceiver, hduring, hid, hbuffer]
    exact h.test

/-- A call that ends before it has taken a response. -/
theorem Clean.fail {s : ClientState} {r : Record} (h : Clean s r) {call : Call}
    (hpending : s.app.pending = some call) (hid : call.id = -1)
    (hcounted : r.taken = 0 ∧ r.posted = 0) (ret : KioskRet) : Clean (Client.fail s call ret) r where
  idle := by
    intro _
    exact (h.current call hpending).trans hid
  current := by
    intro call' hcall'
    cases hcall'
  counted := by
    obtain ⟨htaken, hposted⟩ := hcounted
    show r.taken ≤ 1 ∧ r.posted = r.taken
    omega
  served := by
    intro hunserved
    -- no message is expected by a call whose id is negative
    obtain ⟨call', hcall', -, hnonneg⟩ := h.served hunserved
    obtain rfl : call = call' := Option.some.inj (hpending.symm.trans hcall')
    omega
  response := h.response
  test := h.test

/-- Steps of the receiver, and of the kiosk. -/
theorem Clean.receiver {s s' : ClientState} {r r' : Record} (h : Clean s r)
    (happ : s'.app = s.app) (hid : s'.expectedId = s.expectedId) (htaken : r'.taken = r.taken)
    (hposted : r'.posted = r.posted)
    (hserved : Unserved s' →
      ∃ call, s.app.pending = some call ∧ r'.serving = some call.number ∧ 0 ≤ call.id)
    (hresponse : s'.receiver.responding → r'.during = true)
    (htest : s'.receiver = .test → r'.during = false → 0 ≤ s.expectedId →
      bufferedId s' ≠ some s.expectedId) : Clean s' r' where
  idle := by
    rw [happ, hid]
    exact h.idle
  current := by
    rw [happ, hid]
    exact h.current
  counted := by
    have hcounted := h.counted
    rw [happ]
    cases hpc : s.app <;> rw [hpc] at hcounted <;> simp only [Counted, htaken, hposted] at hcounted ⊢ <;>
      exact hcounted
  served := by
    rw [happ]
    exact hserved
  response := hresponse
  test := by
    rw [hid]
    exact htest

theorem clean_app {s s' : ClientState} {r : Record} (h : Clean s r)
    (hg : Restoring (s, r) (.other .app)) (hstep : step s .app = some s') :
    Clean s' (r.noteApp s.app) := by
  have hs : Transition s .app s' := transition_of_step hstep
  have hcounted := h.counted
  cases hs with
  | setExpected call happ =>
      rw [happ] at hcounted ⊢
      have hidle : s.app.pending = none := by rw [happ]; rfl
      refine ⟨?_, ?_, hcounted, ?_, h.response, ?_⟩
      · intro hnone
        cases hnone
      · rintro _ ⟨⟩
        rfl
      · intro hunserved
        obtain ⟨call', hcall', -⟩ := h.served hunserved
        rw [hidle] at hcall'
        cases hcall'
      · intro hreceiver hduring hnonneg
        exact hg.sets rfl call (by rw [happ]; rfl) hnonneg hreceiver hduring
  | clearReady call happ =>
      rw [happ] at hcounted ⊢
      exact h.app (by rw [happ]; rfl) rfl hcounted rfl le_rfl rfl rfl rfl
  | write call happ =>
      rw [happ] at hcounted ⊢
      exact h.app (by rw [happ]; rfl) rfl hcounted rfl le_rfl rfl rfl rfl
  | waitReady call happ _ =>
      rw [happ] at hcounted ⊢
      obtain ⟨htaken, hposted⟩ := hcounted
      have hnow : r.taken + 1 = 1 ∧ r.posted = 0 := by omega
      exact h.app (by rw [happ]; rfl) rfl hnow rfl le_rfl rfl rfl rfl
  | overflow call happ =>
      -- by the guard, there is room for the answer
      have hroom := not_lt.mpr (hg.fits rfl call (by rw [happ]; rfl))
      simp only [step, appStep, happ, hroom, if_false] at hstep
      have hpc := congrArg (Option.map (·.app)) hstep
      cases hpc
  | compareLen call happ =>
      rw [happ] at hcounted ⊢
      exact h.app (by rw [happ]; rfl) rfl hcounted rfl le_rfl rfl rfl rfl
  | readLen call happ =>
      rw [happ] at hcounted ⊢
      exact h.app (by rw [happ]; rfl) rfl hcounted rfl le_rfl rfl rfl rfl
  | copy call respLen happ =>
      rw [happ] at hcounted ⊢
      exact h.app (by rw [happ]; rfl) rfl hcounted rfl le_rfl rfl rfl rfl
  | postDone call resp happ =>
      rw [happ] at hcounted ⊢
      obtain ⟨htaken, hposted⟩ := hcounted
      have hnow : r.taken = 1 ∧ r.posted + 1 = 1 := by omega
      exact h.app (by rw [happ]; rfl) rfl hnow rfl (Nat.le_succ _) rfl rfl rfl
  | resetExpected call resp happ =>
      rw [happ] at hcounted ⊢
      obtain ⟨htaken, hposted⟩ := hcounted
      refine ⟨fun _ => rfl, ?_, ⟨htaken.le, hposted.trans htaken.symm⟩, ?_, h.response, ?_⟩
      · intro call' hcall'
        cases hcall'
      · intro hunserved
        exact (hg.ends rfl call (by rw [happ]; rfl) hunserved).elim
      · intro _ _ hnonneg
        change (0 : ℤ) ≤ -1 at hnonneg
        omega

theorem clean_receiver {s s' : ClientState} {r : Record} (h : Clean s r)
    (hs : Transition s .receiver s') : Clean s' (r.noteReceiver s) := by
  cases hs with
  | read msg incoming hpc _ =>
      rw [Record.noteReceiver, hpc]
      refine h.receiver rfl rfl rfl rfl (fun hno => hno.elim) (fun hno => hno.elim) ?_
      intro _ hduring hnonneg
      -- between two calls nothing is expected
      have happ : s.app = .idle := by simpa using hduring
      rw [h.idle (by rw [happ]; rfl)] at hnonneg
      omega
  | expected hpc hexpected =>
      obtain ⟨hnonneg, hid⟩ := hexpected
      rw [Record.noteReceiver, hpc]
      refine h.receiver rfl rfl rfl rfl ?_ ?_ (fun hno => by cases hno)
      · intro _
        cases hpending : s.app.pending with
        | none =>
            rw [h.idle hpending] at hnonneg
            omega
        | some call => exact ⟨call, rfl, rfl, (h.current call hpending) ▸ hnonneg⟩
      · intro _
        rw [← Bool.not_eq_false]
        intro hduring
        exact h.test hpc hduring hnonneg hid
  | unexpected hpc =>
      rw [Record.noteReceiver, hpc]
      exact h.receiver rfl rfl rfl rfl (fun hno => hno.elim) (fun hno => hno.elim) (fun hno => by cases hno)
  | setLen hpc =>
      have hunserved : Unserved s := by
        rw [Unserved, hpc]
        trivial
      rw [Record.noteReceiver, hpc]
      exact h.receiver rfl rfl rfl rfl (fun _ => h.served hunserved)
        (fun _ => h.response (by rw [hpc]; trivial)) (fun hno => by cases hno)
  | clearDone hpc =>
      have hunserved : Unserved s := by
        rw [Unserved, hpc]
        trivial
      rw [Record.noteReceiver, hpc]
      exact h.receiver rfl rfl rfl rfl (fun _ => h.served hunserved)
        (fun _ => h.response (by rw [hpc]; trivial)) (fun hno => by cases hno)
  | postReady hpc =>
      rw [Record.noteReceiver, hpc]
      refine h.receiver rfl rfl rfl rfl ?_ (fun _ => h.response (by rw [hpc]; trivial)) (fun hno => by cases hno)
      intro hdone
      apply h.served
      rw [Unserved, hpc]
      exact hdone
  | waitDone hpc _ =>
      rw [Record.noteReceiver, hpc]
      exact h.receiver rfl rfl rfl rfl (fun hno => hno.elim)
        (fun _ => h.response (by rw [hpc]; trivial)) (fun hno => by cases hno)
  | zeroLen hpc =>
      rw [Record.noteReceiver, hpc]
      exact h.receiver rfl rfl rfl rfl (fun hno => hno.elim) (fun hno => hno.elim) (fun hno => by cases hno)
  | event hpc =>
      rw [Record.noteReceiver, hpc]
      exact h.receiver rfl rfl rfl rfl (fun hno => hno.elim) (fun hno => hno.elim) (fun hno => by cases hno)

theorem Clean.begin {s s' : ClientState} {r : Record} (h : Clean s r)
    (hpending : s'.app.pending = s.app.pending) (hcounted : Counted s'.app r.begin)
    (hid : s'.expectedId = s.expectedId) (hreceiver : s'.receiver = s.receiver)
    (hdone : s.respDone ≤ s'.respDone) (hbuffer : bufferedId s' = bufferedId s) :
    Clean s' r.begin :=
  h.app hpending hid hcounted hreceiver hdone hbuffer rfl rfl

theorem clean_other {s s' : ClientState} {r : Record} {a : Action} (h : Clean s r)
    (hg : Restoring (s, r) (.other a)) (hstep : step s a = some s') :
    Clean s' (note s (.other a) r) := by
  have hs : Transition s a s' := transition_of_step hstep
  cases a with
  | app => exact clean_app h hg hstep
  | receiver => exact clean_receiver h hs
  | call id room =>
      cases hs with
      | call _ _ happ => exact h.begin (by rw [happ]; rfl) ⟨rfl, rfl⟩ rfl rfl le_rfl rfl
  | writeFails =>
      cases hs with
      | writeFails call happ =>
          have hcounted := h.counted
          have hpending : s.app.pending = some call := by rw [happ]; rfl
          rw [happ] at hcounted
          exact h.fail hpending (hg.written rfl call hpending) hcounted _
  | appTimeout =>
      cases hs with
      | appTimeout call happ =>
          have hcounted := h.counted
          have hpending : s.app.pending = some call := by rw [happ]; rfl
          rw [happ] at hcounted
          exact h.fail hpending (hg.answered rfl call hpending) hcounted _
  | receiverTimeout =>
      cases hs with
      | receiverTimeout hpc =>
          exact h.receiver rfl rfl rfl rfl (fun hno => hno.elim)
            (fun _ => h.response (by rw [hpc]; trivial)) (fun hno => by cases hno)
  | answer number bytes =>
      cases hs with
      | answer call _ _ _ => exact h.receiver rfl rfl rfl rfl h.served h.response h.test
  | notify bytes =>
      cases hs with
      | notify _ => exact h.receiver rfl rfl rfl rfl h.served h.response h.test

theorem clean_step {s s' : ClientState} {r : Record} {a : SendAction} (h : Clean s r)
    (hg : Restoring (s, r) a) (hstep : sending.step s a = some s') : Clean s' (note s a r) := by
  change sendStep s a = some s' at hstep
  cases a with
  | other a => exact clean_other h hg hstep
  | send cmd room =>
      rw [sendStep] at hstep
      cases hid : parseId cmd cmd.length with
      | none =>
          simp only [hid] at hstep
          split_ifs at hstep with happ
          obtain rfl : s = s' := Option.some.inj hstep
          refine h.begin rfl ?_ rfl rfl le_rfl rfl
          rw [happ]
          exact ⟨Nat.zero_le 1, rfl⟩
      | some id =>
          have hcall : step s (.call id room) = some s' := by simpa only [hid] using hstep
          have hs : Transition s (.call id room) s' := transition_of_step hcall
          cases hs with
          | call _ _ happ => exact h.begin (by rw [happ]; rfl) ⟨rfl, rfl⟩ rfl rfl le_rfl rfl

/-- **Returns.** -/
theorem returned_restored {s : ClientState × Record} (h : recording.Reach Restoring s) :
    Restored s.1 s.2 := by
  have hclean : Clean s.1 s.2 := by
    apply h.observed
    · rintro s rfl
      exact clean_start
    · intro s r a s' hI hg hstep
      exact clean_step hI hg hstep
  exact hclean.restored

def handleResponse : List Action := takeResponse ++ [.receiver, .receiver]

def answeredCall : List SendAction :=
  let steps : List Action := [.app, .app, .app, .answer 0 readyAnswer.text] ++ receiveResponse ++
    handleResponse ++ [.notify readyAnswer.text, .receiver, .receiver]
  .send getStatusCmd 128 :: steps.map .other

theorem answeredCall_restored :
    ∃ s, recording.exec Restoring (start, .first) answeredCall = some s ∧
      s.1.returned = [(⟨0, 1, 128⟩, readyAnswer.text)] ∧ s.1.receiver = .event ∧
      Restored s.1 s.2 := by
  have hexec : (recording.exec Restoring (start, .first) answeredCall).map
      (fun s => (s.1.returned, s.1.receiver)) =
        some ([(⟨0, 1, 128⟩, readyAnswer.text)], .event) := by decide +kernel
  obtain ⟨s, hs, hstate⟩ := Option.map_eq_some_iff.mp hexec
  obtain ⟨hreturned, hreceiver⟩ := Prod.mk.inj hstate
  exact ⟨s, hs, hreturned, hreceiver,
    returned_restored ⟨(start, .first), ⟨rfl, rfl⟩, .of_exec hs⟩⟩

def longAnswer : Bytes :=
  (object [(ascii "jsonrpc", .string (ascii "2.0")), (ascii "result", .string (List.replicate 100 65)),
    (ascii "id", .number (ascii "3"))]).text

/-- The call fails with the response in its hands; later, an event with the same id is received. -/
def overflowingCall : List SendAction :=
  let steps : List Action := [.app, .app, .app, .answer 0 longAnswer] ++ receiveResponse ++
    [.app, .app, .receiverTimeout, .receiver, .notify (completionEvent (ascii "3")).text] ++
    receiveResponse
  .send getKioskIdCmd 128 :: steps.map .other

/-- The event is a response to nobody, and the receiver waits. -/
theorem overflowingCall_unrestored :
    ∃ s r, recording.Reachable (s, r) ∧ s.app = .idle ∧ s.expectedId = 3 ∧ r.taken = 1 ∧ r.posted = 0 ∧ s.receiver = .waitDone ∧
      s.respDone = 0 ∧ r.during = false ∧ ¬Restored s r := by
  have hexec : (recording.exec (fun _ _ => True) (start, .first) overflowingCall).map
      (fun s => (s.1.app, s.1.expectedId, s.2, s.1.receiver, s.1.respDone)) =
        some (.idle, 3, ⟨1, 0, none, false⟩, .waitDone, 0) := by decide +kernel
  obtain ⟨⟨s, r⟩, hs, hstate⟩ := Option.map_eq_some_iff.mp hexec
  simp only [Prod.mk.injEq] at hstate
  obtain ⟨happ, hid, hr, hreceiver, hdone⟩ := hstate
  refine ⟨s, r, ⟨(start, .first), ⟨rfl, rfl⟩, .of_exec hs⟩, happ, hid, by rw [hr],
    by rw [hr], hreceiver, hdone, by rw [hr], ?_⟩
  intro h
  have hidle := h.expected happ
  rw [hid] at hidle
  exact absurd hidle (by decide)

end Client

end OtiKiosk
