import OtiKiosk.Client.Handover

/-!
What a call returns is a message that was received for it. The semaphores do not
enforce this: a response can be posted before the call clears them, and the
receiver gives up after a while and reads on. Runs in which neither happens at
the wrong moment keep an invariant, which ties the buffer, its length and both
semaphores to the places where the two threads are.

What it takes for a message to fit a call is left open; `Fits` is its id here, and
the command it answers elsewhere.
-/

namespace OtiKiosk

open Ascii Json

/-- The receiver has taken the message for an answer, and not said so yet. -/
def ReceiverPc.passed : ReceiverPc → Prop
  | .setLen | .clearDone | .postReady => True
  | _ => False

instance : DecidablePred ReceiverPc.passed
  | .setLen | .clearDone | .postReady => isTrue trivial
  | .read | .test | .waitDone | .zeroLen | .event => isFalse id

def AppPc.waiting : AppPc → Option Call
  | .write call | .waitReady call => some call
  | _ => none

def AppPc.handling : AppPc → Option Call
  | .compareLen call | .readLen call | .copy call _ | .postDone call _ => some call
  | _ => none

namespace Client

/-- The application can take a response, or has taken one that it is not done with. -/
def Offered (s : ClientState) : Prop :=
  s.app.handling.isSome ∨ s.app.waiting.isSome ∧ 0 < s.respReady

instance : DecidablePred Offered := fun _ => inferInstanceAs (Decidable (_ ∨ _ ∧ _))

def bufferedId (s : ClientState) : Option ℤ := parseId s.workBuffer s.dataLen

section

variable (Fits : Msg → Call → Prop)

/-- The message that was read last fits the call. -/
def Holds (s : ClientState) (call : Call) : Prop :=
  ∃ msg, s.received.head? = some msg ∧ Fits msg call

/-- The receiver waits for a response that fits the call to be handled. -/
structure Serving (s : ClientState) (call : Call) : Prop where
  receiver : s.receiver = .waitDone
  respDone : s.respDone = 0
  holds : Holds Fits s call

def Answer (s : ClientState) (call : Call) (resp : Bytes) : Prop :=
  ∃ msg ∈ s.received, resp = msg.bytes ∧ Fits msg call

def AppOk (s : ClientState) : Prop :=
  match s.app with
  | .idle | .setExpected _ => True
  | .clearReady call => s.expectedId = call.id
  | .write call | .waitReady call =>
      s.expectedId = call.id ∧ (s.receiver.passed → Holds Fits s call) ∧
        (0 < s.respReady → Serving Fits s call)
  | .compareLen call | .readLen call => Serving Fits s call
  | .copy call respLen => Serving Fits s call ∧ respLen = s.dataLen
  | .postDone call resp => Serving Fits s call ∧ Answer Fits s call resp
  | .resetExpected call resp => Answer Fits s call resp

structure Matched (s : ClientState) : Prop where
  app : AppOk Fits s
  /-- The buffer holds the message that was read last. -/
  buffer : ∀ msg, s.received.head? = some msg →
    s.workBuffer = OtiKiosk.workBuffer msg.bytes ∧ s.dataLen = msg.bytes.length
  read : s.receiver ≠ .read → s.received ≠ []
  length : s.receiver = .clearDone ∨ s.receiver = .postReady ∨ s.receiver = .waitDone →
    s.currentRespLen = s.dataLen
  cleared : s.receiver = .postReady → s.respDone = 0
  returned : ∀ r ∈ s.returned, Answer Fits s r.1 r.2

/-- The steps at which a run can go wrong do not. -/
structure Orderly (s : ClientState) (a : Action) : Prop where
  clear : a = .app → ∀ call, s.app = .clearReady call → s.receiver.passed → Holds Fits s call
  test : a = .receiver → ∀ call, s.app.waiting = some call → s.receiver = .test →
    s.expectedId = call.id → bufferedId s = some call.id → Holds Fits s call
  expire : a = .receiverTimeout → ¬Offered s

end

variable {Fits : Msg → Call → Prop} {s s' : ClientState}

theorem Serving.mono {call : Call} (h : Serving Fits s call) (hreceiver : s'.receiver = s.receiver)
    (hdone : s'.respDone = s.respDone) (hreceived : s'.received = s.received) :
    Serving Fits s' call where
  receiver := hreceiver.trans h.receiver
  respDone := hdone.trans h.respDone
  holds := by
    rw [Holds, hreceived]
    exact h.holds

theorem Answer.mono {call : Call} {resp : Bytes} (h : Answer Fits s call resp)
    (hreceived : s.received ⊆ s'.received) : Answer Fits s' call resp := by
  obtain ⟨msg, hmsg, hanswer⟩ := h
  exact ⟨msg, hreceived hmsg, hanswer⟩

/-- What a response that is served looks like in the buffer. -/
theorem Matched.answer {call : Call} (h : Matched Fits s) (hserving : Serving Fits s call) :
    Answer Fits s call (s.workBuffer.take s.dataLen) := by
  obtain ⟨msg, hmsg, hfits⟩ := hserving.holds
  obtain ⟨hbuffer, hlen⟩ := h.buffer msg hmsg
  refine ⟨msg, List.mem_of_mem_head? hmsg, ?_, hfits⟩
  rw [hbuffer, hlen, OtiKiosk.workBuffer, List.take_left]

theorem Matched.currentRespLen {call : Call} (h : Matched Fits s)
    (hserving : Serving Fits s call) : s.currentRespLen = s.dataLen :=
  h.length (.inr (.inr hserving.receiver))

/-- While the receiver serves nothing, the application can only be ahead of a response, or behind
it. -/
theorem AppOk.of_not_waitDone (h : AppOk Fits s) (hreceiver : s.receiver ≠ .waitDone) :
    s.app.handling = none ∧ (∀ call, s.app.waiting = some call → s.respReady = 0) := by
  have hserving : ∀ call, ¬Serving Fits s call := fun call hcall => hreceiver hcall.receiver
  rw [AppOk] at h
  cases happ : s.app with
  | idle | setExpected call | clearReady call | resetExpected call resp => exact ⟨rfl, nofun⟩
  | write call | waitReady call =>
      rw [happ] at h
      refine ⟨rfl, fun call' _ => ?_⟩
      by_contra hready
      exact hserving call (h.2.2 (Nat.pos_of_ne_zero hready))
  | compareLen call | readLen call =>
      rw [happ] at h
      exact (hserving call h).elim
  | copy call respLen | postDone call resp =>
      rw [happ] at h
      exact (hserving call h.1).elim

/-- A step of the receiver that leaves `_expected_id` alone and does not break what the application
relies on. -/
theorem AppOk.mono (h : AppOk Fits s) (happ : s'.app = s.app)
    (hid : s'.expectedId = s.expectedId) (hhandling : s.app.handling = none)
    (hpassed : ∀ call, s.app.waiting = some call → s.expectedId = call.id → s'.receiver.passed →
      Holds Fits s' call)
    (hready : ∀ call, s.app.waiting = some call → 0 < s'.respReady → Serving Fits s' call)
    (hreceived : s.received ⊆ s'.received) : AppOk Fits s' := by
  rw [AppOk] at h ⊢
  rw [happ]
  cases hpc : s.app with
  | idle | setExpected call => trivial
  | clearReady call =>
      rw [hpc] at h
      exact hid.trans h
  | write call | waitReady call =>
      rw [hpc] at h hpassed hready
      exact ⟨hid.trans h.1, hpassed call rfl h.1, hready call rfl⟩
  | compareLen call | readLen call | copy call respLen | postDone call resp =>
      rw [hpc] at hhandling
      cases hhandling
  | resetExpected call resp =>
      rw [hpc] at h
      exact Answer.mono h hreceived

/-- The steps of the receiver away from the semaphores. -/
theorem AppOk.receiver (h : AppOk Fits s) (hreceiver : s.receiver ≠ .waitDone)
    (happ : s'.app = s.app) (hid : s'.expectedId = s.expectedId) (hready : s'.respReady = s.respReady)
    (hreceived : s.received ⊆ s'.received)
    (hpassed : ∀ call, s.app.waiting = some call → s.expectedId = call.id → s'.receiver.passed →
      Holds Fits s' call) : AppOk Fits s' := by
  obtain ⟨hhandling, hnone⟩ := h.of_not_waitDone hreceiver
  refine h.mono happ hid hhandling hpassed ?_ hreceived
  intro call hcall hpos
  rw [hready, hnone call hcall] at hpos
  exact absurd hpos (lt_irrefl 0)

/-- What is offered is served. -/
theorem AppOk.serving (h : AppOk Fits s) (hoffered : Offered s) : ∃ call, Serving Fits s call := by
  rw [AppOk] at h
  cases happ : s.app with
  | idle | setExpected call | clearReady call | resetExpected call resp =>
      simp [Offered, happ, AppPc.handling, AppPc.waiting] at hoffered
  | write call | waitReady call =>
      rw [happ] at h
      simp only [Offered, happ, AppPc.handling, AppPc.waiting, Option.isSome_none, Option.isSome_some,
        Bool.false_eq_true, false_or, true_and] at hoffered
      exact ⟨call, h.2.2 hoffered⟩
  | compareLen call | readLen call =>
      rw [happ] at h
      exact ⟨call, h⟩
  | copy call respLen | postDone call resp =>
      rw [happ] at h
      exact ⟨call, h.1⟩

/-- A message that was taken for an answer stays one. -/
theorem AppOk.passed (h : AppOk Fits s) (hreceiver : s.receiver.passed) {call : Call}
    (hcall : s.app.waiting = some call) : Holds Fits s call := by
  rw [AppOk] at h
  cases happ : s.app with
  | write call' | waitReady call' =>
      rw [happ] at h hcall
      cases hcall
      exact h.2.1 hreceiver
  | _ =>
      rw [happ] at hcall
      cases hcall

/-- What the kiosk sends is not looked at before it is read. -/
theorem AppOk.sent (h : AppOk Fits s) (incoming : List Msg) (unanswered : List Call) :
    AppOk Fits { s with incoming := incoming, unanswered := unanswered } := by
  rw [AppOk] at h ⊢
  cases hpc : s.app with
  | idle | setExpected call => trivial
  | clearReady call =>
      rw [hpc] at h
      exact h
  | write call | waitReady call =>
      rw [hpc] at h
      obtain ⟨hid, hpassed, hready⟩ := h
      exact ⟨hid, hpassed, fun hpos => (hready hpos).mono rfl rfl rfl⟩
  | compareLen call | readLen call =>
      rw [hpc] at h
      exact h.mono rfl rfl rfl
  | copy call respLen =>
      rw [hpc] at h
      exact ⟨h.1.mono rfl rfl rfl, h.2⟩
  | postDone call resp =>
      rw [hpc] at h
      exact ⟨h.1.mono rfl rfl rfl, h.2⟩
  | resetExpected call resp =>
      rw [hpc] at h
      exact h

theorem matched_start : Matched Fits start where
  app := trivial
  buffer := nofun
  read := fun h => (h rfl).elim
  length := by
    intro h
    simp [start] at h
  cleared := nofun
  returned := nofun

/-- The steps of the application leave the receiver where it is. -/
theorem Matched.of_app (h : Matched Fits s) (happ : AppOk Fits s')
    (hreceiver : s'.receiver = s.receiver) (hbuffer : s'.workBuffer = s.workBuffer)
    (hlen : s'.dataLen = s.dataLen) (hresp : s'.currentRespLen = s.currentRespLen)
    (hdone : s.receiver = .postReady → s'.respDone = s.respDone)
    (hreceived : s'.received = s.received)
    (hreturned : ∀ r ∈ s'.returned, r ∈ s.returned ∨ Answer Fits s r.1 r.2) :
    Matched Fits s' where
  app := happ
  buffer := by
    rw [hreceived, hbuffer, hlen]
    exact h.buffer
  read := by
    rw [hreceiver, hreceived]
    exact h.read
  length := by
    rw [hreceiver, hlen, hresp]
    exact h.length
  cleared := by
    intro hpc
    rw [hreceiver] at hpc
    exact (hdone hpc).trans (h.cleared hpc)
  returned := by
    intro r hr
    have hanswer : Answer Fits s r.1 r.2 := (hreturned r hr).elim (h.returned r) id
    exact hanswer.mono (by rw [hreceived]; exact fun _ => id)

/-- The steps of the application, and those of the kiosk. -/
theorem matched_app {a : Action} (h : Matched Fits s) (hg : Orderly Fits s a)
    (hs : Transition s a s') (ha : a ≠ .receiver ∧ a ≠ .receiverTimeout) : Matched Fits s' := by
  have happ := h.app
  rw [AppOk] at happ
  have hsame : ∀ r ∈ s.returned, r ∈ s.returned ∨ Answer Fits s r.1 r.2 := fun r hr => .inl hr
  cases hs with
  | call id room _ => exact h.of_app trivial rfl rfl rfl rfl (fun _ => rfl) rfl hsame
  | setExpected call hpc => exact h.of_app rfl rfl rfl rfl rfl (fun _ => rfl) rfl hsame
  | clearReady call hpc =>
      rw [hpc] at happ
      refine h.of_app ⟨happ, hg.clear rfl call hpc, ?_⟩ rfl rfl rfl rfl (fun _ => rfl) rfl hsame
      -- no post that was made before counts
      intro hready
      exact absurd hready (lt_irrefl 0)
  | write call hpc =>
      rw [hpc] at happ
      obtain ⟨hid, hpassed, hready⟩ := happ
      exact h.of_app ⟨hid, hpassed, fun hpos => (hready hpos).mono rfl rfl rfl⟩ rfl rfl rfl rfl
        (fun _ => rfl) rfl hsame
  | writeFails call hpc => exact h.of_app trivial rfl rfl rfl rfl (fun _ => rfl) rfl hsame
  | waitReady call hpc hready =>
      rw [hpc] at happ
      exact h.of_app ((happ.2.2 hready).mono rfl rfl rfl) rfl rfl rfl rfl (fun _ => rfl) rfl hsame
  | appTimeout call hpc => exact h.of_app trivial rfl rfl rfl rfl (fun _ => rfl) rfl hsame
  | overflow call hpc => exact h.of_app trivial rfl rfl rfl rfl (fun _ => rfl) rfl hsame
  | compareLen call hpc =>
      rw [hpc] at happ
      exact h.of_app (happ.mono rfl rfl rfl) rfl rfl rfl rfl (fun _ => rfl) rfl hsame
  | readLen call hpc =>
      rw [hpc] at happ
      exact h.of_app ⟨happ.mono rfl rfl rfl, h.currentRespLen happ⟩ rfl rfl rfl rfl
        (fun _ => rfl) rfl hsame
  | copy call respLen hpc =>
      rw [hpc] at happ
      obtain ⟨hserving, rfl⟩ := happ
      exact h.of_app ⟨hserving.mono rfl rfl rfl, (h.answer hserving).mono fun _ => id⟩ rfl rfl rfl
        rfl (fun _ => rfl) rfl hsame
  | postDone call resp hpc =>
      rw [hpc] at happ
      obtain ⟨hserving, hanswer⟩ := happ
      refine h.of_app (hanswer.mono fun _ => id) rfl rfl rfl rfl ?_ rfl hsame
      intro hpost
      rw [hserving.receiver] at hpost
      cases hpost
  | resetExpected call resp hpc =>
      rw [hpc] at happ
      refine h.of_app trivial rfl rfl rfl rfl (fun _ => rfl) rfl ?_
      intro r hr
      rcases List.mem_cons.mp hr with rfl | hr
      · exact .inr happ
      · exact .inl hr
  | answer call bytes _ _ =>
      exact h.of_app (h.app.sent _ _) rfl rfl rfl rfl (fun _ => rfl) rfl hsame
  | notify bytes => exact h.of_app (h.app.sent _ _) rfl rfl rfl rfl (fun _ => rfl) rfl hsame
  | receiverTimeout _ => exact absurd rfl ha.2
  | _ => exact absurd rfl ha.1

/-- The steps of the receiver that change neither the buffer nor what was received. -/
theorem Matched.of_receiver (h : Matched Fits s) (happ : AppOk Fits s')
    (hbuffer : s'.workBuffer = s.workBuffer) (hlen : s'.dataLen = s.dataLen)
    (hreceived : s'.received = s.received) (hreturned : s'.returned = s.returned)
    (hread : s.receiver ≠ .read)
    (hlength : s'.receiver = .clearDone ∨ s'.receiver = .postReady ∨ s'.receiver = .waitDone →
      s'.currentRespLen = s'.dataLen)
    (hcleared : s'.receiver = .postReady → s'.respDone = 0) : Matched Fits s' where
  app := happ
  buffer := by
    rw [hreceived, hbuffer, hlen]
    exact h.buffer
  read := by
    rw [hreceived]
    exact fun _ => h.read hread
  length := hlength
  cleared := hcleared
  returned := by
    rw [hreturned]
    intro r hr
    exact (h.returned r hr).mono (by rw [hreceived]; exact fun _ => id)

/-- A response is posted. -/
theorem Matched.posted (h : Matched Fits s) (hpc : s.receiver = .postReady) :
    AppOk Fits { s with receiver := .waitDone, respReady := s.respReady + 1 } := by
  have hpassed : s.receiver.passed := by
    rw [hpc]
    trivial
  have hhandling := (h.app.of_not_waitDone (hpc.trans_ne nofun)).1
  refine h.app.mono rfl rfl hhandling (fun _ _ _ => nofun) ?_ fun _ => id
  intro call hcall _
  exact ⟨rfl, h.cleared hpc, h.app.passed hpassed hcall⟩

/-- The receiver leaves the wait for a response to be handled, when none is offered. -/
theorem AppOk.expired (h : AppOk Fits s) (hoffered : ¬Offered s) (hreceiver : ¬s'.receiver.passed)
    (happ : s'.app = s.app) (hid : s'.expectedId = s.expectedId)
    (hready : s'.respReady = s.respReady) (hreceived : s'.received = s.received) :
    AppOk Fits s' := by
  rw [Offered, not_or] at hoffered
  obtain ⟨hhandling, hnone⟩ := hoffered
  refine h.mono happ hid (by simpa using hhandling) (fun _ _ _ hp => (hreceiver hp).elim) ?_
    (by rw [hreceived]; exact fun _ => id)
  intro call hcall hpos
  rw [hready] at hpos
  exact absurd ⟨by rw [hcall]; rfl, hpos⟩ hnone

theorem matched_receiver (h : Matched Fits s) {a : Action} (hg : Orderly Fits s a)
    (hs : Transition s a s') (ha : a = .receiver ∨ a = .receiverTimeout) : Matched Fits s' := by
  cases hs with
  | read msg incoming hpc _ =>
      have hsub : s.received ⊆ msg :: s.received := List.subset_cons_self _ _
      refine ⟨h.app.receiver (hpc.trans_ne nofun) rfl rfl rfl hsub fun _ _ _ => nofun, ?_, ?_,
        by simp, nofun, ?_⟩
      · rintro m ⟨⟩
        exact ⟨rfl, rfl⟩
      · exact fun _ => List.cons_ne_nil _ _
      · exact fun r hr => (h.returned r hr).mono hsub
  | expected hpc htest =>
      have happ : AppOk Fits { s with receiver := .setLen } := by
        refine h.app.receiver (hpc.trans_ne nofun) rfl rfl rfl (fun _ => id) ?_
        -- by the guard, a message that passes the test is the answer to the pending call
        intro call hcall hid _
        exact hg.test rfl call hcall hpc hid (by rw [← hid]; exact htest.2)
      exact h.of_receiver happ rfl rfl rfl rfl (hpc.trans_ne nofun) (by simp) nofun
  | unexpected hpc =>
      have happ : AppOk Fits { s with receiver := .event } :=
        h.app.receiver (hpc.trans_ne nofun) rfl rfl rfl (fun _ => id) fun _ _ _ => nofun
      exact h.of_receiver happ rfl rfl rfl rfl (hpc.trans_ne nofun) (by simp) nofun
  | setLen hpc =>
      have hpassed : s.receiver.passed := by
        rw [hpc]
        trivial
      refine h.of_receiver (h.app.receiver (hpc.trans_ne nofun) rfl rfl rfl (fun _ => id) ?_) rfl rfl
        rfl rfl (hpc.trans_ne nofun) (fun _ => rfl) nofun
      exact fun call hcall _ _ => h.app.passed hpassed hcall
  | clearDone hpc =>
      have hpassed : s.receiver.passed := by
        rw [hpc]
        trivial
      refine h.of_receiver (h.app.receiver (hpc.trans_ne nofun) rfl rfl rfl (fun _ => id) ?_) rfl rfl
        rfl rfl (hpc.trans_ne nofun) (fun _ => h.length (.inl hpc)) fun _ => rfl
      exact fun call hcall _ _ => h.app.passed hpassed hcall
  | postReady hpc =>
      exact h.of_receiver (h.posted hpc) rfl rfl rfl rfl (hpc.trans_ne nofun)
        (fun _ => h.length (.inr (.inl hpc))) nofun
  | waitDone hpc hdone =>
      -- nothing that is offered has been acknowledged already
      have hoffered : ¬Offered s := by
        intro hoffered
        obtain ⟨call, hserving⟩ := h.app.serving hoffered
        rw [hserving.respDone] at hdone
        exact absurd hdone (lt_irrefl 0)
      exact h.of_receiver (h.app.expired hoffered id rfl rfl rfl rfl) rfl rfl rfl rfl
        (hpc.trans_ne nofun) (by simp) nofun
  | receiverTimeout hpc =>
      exact h.of_receiver (h.app.expired (hg.expire rfl) id rfl rfl rfl rfl) rfl rfl rfl rfl
        (hpc.trans_ne nofun) (by simp) nofun
  | zeroLen hpc =>
      have happ : AppOk Fits { s with receiver := .read, currentRespLen := 0 } :=
        h.app.receiver (hpc.trans_ne nofun) rfl rfl rfl (fun _ => id) fun _ _ _ => nofun
      exact h.of_receiver happ rfl rfl rfl rfl (hpc.trans_ne nofun) (by simp) nofun
  | event hpc =>
      have happ : AppOk Fits { s with receiver := .read } :=
        h.app.receiver (hpc.trans_ne nofun) rfl rfl rfl (fun _ => id) fun _ _ _ => nofun
      exact h.of_receiver happ rfl rfl rfl rfl (hpc.trans_ne nofun) (by simp) nofun
  | _ => exact absurd ha (by simp)

/-- **The handover.** -/
theorem matched_step {a : Action} (h : Matched Fits s) (hg : Orderly Fits s a)
    (hs : Transition s a s') : Matched Fits s' := by
  by_cases ha : a = .receiver ∨ a = .receiverTimeout
  · exact matched_receiver h hg hs ha
  · exact matched_app h hg hs (not_or.mp ha)

end Client

end OtiKiosk
