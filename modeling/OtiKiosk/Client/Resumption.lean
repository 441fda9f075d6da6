import OtiKiosk.Client.Handover

/-!
That calls succeed again. Whatever the semaphores, the buffer and the expected id were
left as, and whatever is still on its way, a further call can return `KIOSK_RET_OK`
with its own answer, if no write fails, the kiosk answers, and each wait ends as soon
as it can.
-/

namespace OtiKiosk

namespace Client

/-- No write fails, no wait expires that could end otherwise, and the kiosk only answers. -/
def Willing (s : ClientState) : Action → Prop
  | .call _ _ | .app | .receiver | .answer _ _ => True
  | .appTimeout => s.respReady = 0
  | .receiverTimeout => s.respDone = 0
  | .writeFails | .notify _ => False

/-- The application is outside of `send_receive`, and so far there were `n` calls. -/
def Outside (n : ℕ) (s : ClientState) : Prop := s.app = .idle ∧ s.calls = n

structure Quiet (n : ℕ) (s : ClientState) : Prop where
  app : s.app = .idle
  calls : s.calls = n
  receiver : s.receiver = .read
  incoming : s.incoming = []

abbrev Hope (goal : ClientState → Prop) (s : ClientState) : Prop := machine.Can Willing goal s

variable {s t : ClientState} {goal : ClientState → Prop} {n : ℕ} {call : Call}

/-- The next step of the application. -/
theorem Hope.of_app (h : Hope goal t) (hs : appStep s = some t) : Hope goal s :=
  h.of_step (a := .app) trivial hs

/-- The next step of the receiver. -/
theorem Hope.of_receiver (h : Hope goal t) (hs : receiverStep s = some t) : Hope goal s :=
  h.of_step (a := .receiver) trivial hs

/-! ### The call that is made -/

theorem outside_resetExpected {resp : Bytes} (happ : s.app = .resetExpected call resp)
    (hcalls : s.calls = n) : Hope (Outside n) s := by
  refine Hope.of_app (.here (s := { s with
    app := .idle
    expectedId := -1
    latest := some (call, some .ok)
    returned := (call, resp) :: s.returned }) ⟨rfl, hcalls⟩) ?_
  rw [appStep, happ]

theorem outside_postDone {resp : Bytes} (happ : s.app = .postDone call resp) (hcalls : s.calls = n) :
    Hope (Outside n) s := by
  refine Hope.of_app (t := { s with app := .resetExpected call resp, respDone := s.respDone + 1 })
    (outside_resetExpected rfl hcalls) ?_
  rw [appStep, happ]

theorem outside_copy {len : ℕ} (happ : s.app = .copy call len) (hcalls : s.calls = n) :
    Hope (Outside n) s := by
  refine Hope.of_app (t := { s with app := .postDone call (s.workBuffer.take len) })
    (outside_postDone rfl hcalls) ?_
  rw [appStep, happ]

theorem outside_readLen (happ : s.app = .readLen call) (hcalls : s.calls = n) :
    Hope (Outside n) s := by
  refine Hope.of_app (t := { s with app := .copy call s.currentRespLen })
    (outside_copy rfl hcalls) ?_
  rw [appStep, happ]

theorem outside_compareLen (happ : s.app = .compareLen call) (hcalls : s.calls = n) :
    Hope (Outside n) s := by
  by_cases hroom : call.room < s.currentRespLen
  · refine Hope.of_app (t := fail s call .generalError) (.here ⟨rfl, hcalls⟩) ?_
    rw [appStep, happ]
    exact if_pos hroom
  · refine Hope.of_app (t := { s with app := .readLen call }) (outside_readLen rfl hcalls) ?_
    rw [appStep, happ]
    exact if_neg hroom

theorem outside_waitReady (happ : s.app = .waitReady call) (hcalls : s.calls = n) :
    Hope (Outside n) s := by
  by_cases hready : 0 < s.respReady
  · refine Hope.of_app (t := { s with app := .compareLen call, respReady := s.respReady - 1 })
      (outside_compareLen rfl hcalls) ?_
    rw [appStep, happ]
    exact if_pos hready
  · refine Machine.Can.of_step (a := .appTimeout) (t := fail s call .commError)
      (.here ⟨rfl, hcalls⟩) (Nat.eq_zero_of_not_pos hready) ?_
    show step s .appTimeout = _
    simp only [step, happ]

theorem outside_write (happ : s.app = .write call) (hcalls : s.calls = n) : Hope (Outside n) s := by
  refine Hope.of_app (t := { s with app := .waitReady call, unanswered := call :: s.unanswered })
    (outside_waitReady rfl hcalls) ?_
  rw [appStep, happ]

theorem outside_clearReady (happ : s.app = .clearReady call) (hcalls : s.calls = n) :
    Hope (Outside n) s := by
  refine Hope.of_app (t := { s with app := .write call, respReady := 0 })
    (outside_write rfl hcalls) ?_
  rw [appStep, happ]

theorem outside_setExpected (happ : s.app = .setExpected call) (hcalls : s.calls = n) :
    Hope (Outside n) s := by
  refine Hope.of_app (t := { s with
    app := .clearReady call, expectedId := call.id, latest := some (call, none) })
    (outside_clearReady rfl hcalls) ?_
  rw [appStep, happ]

/-- The call that is made returns. -/
theorem outside (s : ClientState) : Hope (Outside s.calls) s := by
  cases happ : s.app with
  | idle => exact .here ⟨happ, rfl⟩
  | setExpected call => exact outside_setExpected happ rfl
  | clearReady call => exact outside_clearReady happ rfl
  | write call => exact outside_write happ rfl
  | waitReady call => exact outside_waitReady happ rfl
  | compareLen call => exact outside_compareLen happ rfl
  | readLen call => exact outside_readLen happ rfl
  | copy call len => exact outside_copy happ rfl
  | postDone call resp => exact outside_postDone happ rfl
  | resetExpected call resp => exact outside_resetExpected happ rfl

/-! ### Messages on their way -/

def Waits (n : ℕ) (incoming : List Msg) (s : ClientState) : Prop :=
  Outside n s ∧ s.receiver = .read ∧ s.incoming = incoming

section

variable {incoming : List Msg}

theorem waits_zeroLen (h : Outside n s) (hrcv : s.receiver = .zeroLen) (hin : s.incoming = incoming) :
    Hope (Waits n incoming) s := by
  refine Hope.of_receiver (t := { s with receiver := .read, currentRespLen := 0 })
    (.here ⟨h, rfl, hin⟩) ?_
  rw [receiverStep, hrcv]

theorem waits_waitDone (h : Outside n s) (hrcv : s.receiver = .waitDone)
    (hin : s.incoming = incoming) : Hope (Waits n incoming) s := by
  by_cases hdone : 0 < s.respDone
  · refine Hope.of_receiver (t := { s with receiver := .zeroLen, respDone := s.respDone - 1 })
      (waits_zeroLen h rfl hin) ?_
    rw [receiverStep, hrcv]
    exact if_pos hdone
  · refine Machine.Can.of_step (a := .receiverTimeout) (t := { s with receiver := .zeroLen })
      (waits_zeroLen h rfl hin) (Nat.eq_zero_of_not_pos hdone) ?_
    show step s .receiverTimeout = _
    simp only [step, hrcv, if_true]

theorem waits_postReady (h : Outside n s) (hrcv : s.receiver = .postReady)
    (hin : s.incoming = incoming) : Hope (Waits n incoming) s := by
  refine Hope.of_receiver (t := { s with receiver := .waitDone, respReady := s.respReady + 1 })
    (waits_waitDone h rfl hin) ?_
  rw [receiverStep, hrcv]

theorem waits_clearDone (h : Outside n s) (hrcv : s.receiver = .clearDone)
    (hin : s.incoming = incoming) : Hope (Waits n incoming) s := by
  refine Hope.of_receiver (t := { s with receiver := .postReady, respDone := 0 })
    (waits_postReady h rfl hin) ?_
  rw [receiverStep, hrcv]

theorem waits_setLen (h : Outside n s) (hrcv : s.receiver = .setLen) (hin : s.incoming = incoming) :
    Hope (Waits n incoming) s := by
  refine Hope.of_receiver (t := { s with receiver := .clearDone, currentRespLen := s.dataLen })
    (waits_clearDone h rfl hin) ?_
  rw [receiverStep, hrcv]

theorem waits_event (h : Outside n s) (hrcv : s.receiver = .event) (hin : s.incoming = incoming) :
    Hope (Waits n incoming) s := by
  refine Hope.of_receiver (t := { s with receiver := .read }) (.here ⟨h, rfl, hin⟩) ?_
  rw [receiverStep, hrcv]

theorem waits_test (h : Outside n s) (hrcv : s.receiver = .test) (hin : s.incoming = incoming) :
    Hope (Waits n incoming) s := by
  by_cases hid : 0 ≤ s.expectedId ∧ parseId s.workBuffer s.dataLen = some s.expectedId
  · refine Hope.of_receiver (t := { s with receiver := .setLen }) (waits_setLen h rfl hin) ?_
    rw [receiverStep, hrcv]
    exact if_pos hid
  · refine Hope.of_receiver (t := { s with receiver := .event }) (waits_event h rfl hin) ?_
    rw [receiverStep, hrcv]
    exact if_neg hid

/-- The receiver is done with the message that it handles. -/
theorem waits (h : Outside n s) (hin : s.incoming = incoming) : Hope (Waits n incoming) s := by
  cases hrcv : s.receiver with
  | read => exact .here ⟨h, hrcv, hin⟩
  | test => exact waits_test h hrcv hin
  | setLen => exact waits_setLen h hrcv hin
  | clearDone => exact waits_clearDone h hrcv hin
  | postReady => exact waits_postReady h hrcv hin
  | waitDone => exact waits_waitDone h hrcv hin
  | zeroLen => exact waits_zeroLen h hrcv hin
  | event => exact waits_event h hrcv hin

/-- The messages that are on their way are read, one after the other. -/
theorem quiet_of_waits (h : Waits n incoming s) : Hope (Quiet n) s := by
  induction incoming generalizing s with
  | nil =>
      obtain ⟨⟨happ, hcalls⟩, hrcv, hin⟩ := h
      exact .here ⟨happ, hcalls, hrcv, hin⟩
  | cons msg incoming ih =>
      obtain ⟨houtside, hrcv, hin⟩ := h
      have hread : Hope (Waits n incoming) s := by
        refine Hope.of_receiver (t := { s with
          receiver := .test
          workBuffer := OtiKiosk.workBuffer msg.bytes
          dataLen := msg.bytes.length
          incoming := incoming
          received := msg :: s.received }) (waits_test houtside rfl rfl) ?_
        simp only [receiverStep, hrcv, hin]
      exact hread.trans fun t _ ht => ih ht

end

theorem quiet (s : ClientState) : Hope (Quiet s.calls) s := by
  refine (outside s).trans fun t _ ht => ?_
  exact (waits ht rfl).trans fun u _ hu => quiet_of_waits hu

/-! ### A call that is answered -/

structure Answered (call : Call) (bytes : Bytes) (s : ClientState) : Prop where
  app : s.app = .idle
  returned : s.returned.head? = some (call, bytes)
  latest : s.latest = some (call, some .ok)
  expectedId : s.expectedId = -1

section

variable {bytes : Bytes}

theorem answered_copy (happ : s.app = .copy call bytes.length)
    (hbuffer : s.workBuffer = OtiKiosk.workBuffer bytes) : Hope (Answered call bytes) s := by
  have htake : s.workBuffer.take bytes.length = bytes := by
    rw [hbuffer, OtiKiosk.workBuffer, List.take_left]
  refine Hope.of_app (t := { s with app := .postDone call bytes }) ?_ ?_
  · refine Hope.of_app (t := { s with
      app := .resetExpected call bytes, respDone := s.respDone + 1 }) ?_ rfl
    refine Hope.of_app (t := { s with
      app := .idle
      respDone := s.respDone + 1
      expectedId := -1
      latest := some (call, some .ok)
      returned := (call, bytes) :: s.returned }) (.here ⟨rfl, rfl, rfl, rfl⟩) rfl
  · rw [appStep, happ]
    exact congrArg (fun resp => some { s with app := .postDone call resp }) htake

theorem answered_waitReady (happ : s.app = .waitReady call) (hready : 0 < s.respReady)
    (hlen : s.currentRespLen = bytes.length) (hroom : bytes.length ≤ call.room)
    (hbuffer : s.workBuffer = OtiKiosk.workBuffer bytes) : Hope (Answered call bytes) s := by
  refine Hope.of_app (t := { s with app := .compareLen call, respReady := s.respReady - 1 }) ?_ ?_
  · refine Hope.of_app (t := { s with app := .readLen call, respReady := s.respReady - 1 }) ?_ ?_
    · refine Hope.of_app (t := { s with
        app := .copy call bytes.length, respReady := s.respReady - 1 })
        (answered_copy rfl hbuffer) ?_
      exact congrArg (fun n => some { s with app := .copy call n, respReady := s.respReady - 1 }) hlen
    · refine if_neg ?_
      show ¬call.room < s.currentRespLen
      rw [hlen]
      exact not_lt.mpr hroom
  · rw [appStep, happ]
    exact if_pos hready

/-- The receiver hands the message over. -/
theorem answered_setLen (hrcv : s.receiver = .setLen) (happ : s.app = .waitReady call)
    (hlen : s.dataLen = bytes.length) (hroom : bytes.length ≤ call.room)
    (hbuffer : s.workBuffer = OtiKiosk.workBuffer bytes) : Hope (Answered call bytes) s := by
  refine Hope.of_receiver (t := { s with receiver := .clearDone, currentRespLen := s.dataLen }) ?_ ?_
  · refine Hope.of_receiver (t := { s with
      receiver := .postReady, currentRespLen := s.dataLen, respDone := 0 }) ?_ rfl
    refine Hope.of_receiver (t := { s with
      receiver := .waitDone
      currentRespLen := s.dataLen
      respDone := 0
      respReady := s.respReady + 1 }) ?_ rfl
    exact answered_waitReady happ (Nat.succ_pos _) hlen hroom hbuffer
  · rw [receiverStep, hrcv]

/-- The answer arrives. -/
theorem answered_read (hrcv : s.receiver = .read) (happ : s.app = .waitReady call)
    (hexpected : s.expectedId = call.id) (hid : 0 ≤ call.id)
    (hparse : parseId bytes bytes.length = some call.id) (hroom : bytes.length ≤ call.room)
    (hin : s.incoming = [⟨bytes, some call.number⟩]) : Hope (Answered call bytes) s := by
  have hbuffered : parseId (OtiKiosk.workBuffer bytes) bytes.length = some call.id := by
    rw [← hparse]
    refine parseId_congr ?_
    rw [OtiKiosk.workBuffer, List.take_left, List.take_length]
  refine Hope.of_receiver (t := { s with
    receiver := .test
    workBuffer := OtiKiosk.workBuffer bytes
    dataLen := bytes.length
    incoming := []
    received := ⟨bytes, some call.number⟩ :: s.received }) ?_ ?_
  · refine Hope.of_receiver (t := { s with
      receiver := .setLen
      workBuffer := OtiKiosk.workBuffer bytes
      dataLen := bytes.length
      incoming := []
      received := ⟨bytes, some call.number⟩ :: s.received })
      (answered_setLen rfl happ rfl hroom rfl) ?_
    refine if_pos ?_
    rw [hexpected]
    exact ⟨hid, hbuffered⟩
  · simp only [receiverStep, hrcv, hin]

/-- The command is written, and answered. -/
theorem answered_write (hrcv : s.receiver = .read) (happ : s.app = .write call)
    (hexpected : s.expectedId = call.id) (hid : 0 ≤ call.id) (hread : IsRead bytes)
    (hparse : parseId bytes bytes.length = some call.id) (hroom : bytes.length ≤ call.room)
    (hin : s.incoming = []) : Hope (Answered call bytes) s := by
  refine Hope.of_app (t := { s with app := .waitReady call, unanswered := call :: s.unanswered }) ?_ ?_
  · refine Machine.Can.of_step (a := .answer call.number bytes) (t := { s with
      app := .waitReady call
      unanswered := s.unanswered
      incoming := [⟨bytes, some call.number⟩] })
      (answered_read hrcv rfl hexpected hid hparse hroom rfl) trivial ?_
    have hfind : (call :: s.unanswered).find? (·.number = call.number) = some call :=
      List.find?_cons_of_pos (by simp)
    have herase : (call :: s.unanswered).erase call = s.unanswered :=
      List.erase_cons_head call s.unanswered
    show step { s with app := .waitReady call, unanswered := call :: s.unanswered }
      (.answer call.number bytes) = _
    simp only [step, hfind, herase, hin, List.nil_append]
    exact if_pos ⟨hread, hparse⟩
  · rw [appStep, happ]

/-- **Service goes on**: from any state, a call can be made that returns `KIOSK_RET_OK` with the
kiosk's answer to it, whatever happened before. -/
theorem call_succeeds (s : ClientState) {id : ℤ} {room : ℕ} (hid : 0 ≤ id) (hread : IsRead bytes)
    (hparse : parseId bytes bytes.length = some id) (hroom : bytes.length ≤ room) :
    ∃ s', machine.Leads Willing s s' ∧ Answered ⟨s.calls, id, room⟩ bytes s' := by
  refine (quiet s).trans fun t _ ht => ?_
  refine Machine.Can.of_step (a := .call id room) (t := { t with
    app := .setExpected ⟨t.calls, id, room⟩, calls := t.calls + 1 }) ?_ trivial ?_
  · refine Hope.of_app (t := { t with
      app := .clearReady ⟨t.calls, id, room⟩
      calls := t.calls + 1
      expectedId := id
      latest := some (⟨t.calls, id, room⟩, none) }) ?_ rfl
    refine Hope.of_app (t := { t with
      app := .write ⟨t.calls, id, room⟩
      calls := t.calls + 1
      expectedId := id
      latest := some (⟨t.calls, id, room⟩, none)
      respReady := 0 }) ?_ rfl
    rw [← ht.calls]
    exact answered_write ht.receiver rfl rfl hid hread hparse hroom ht.incoming
  · exact if_pos ht.app

end

/-- The answer to `PreAuthorize` comes when the call has timed out. -/
def lateAnswer : List Action :=
  [.call 6 128, .app, .app, .app, .appTimeout, .answer 0 (ascii "\x7b\"id\":6,\"result\":true\x7d")]

theorem call_succeeds_late :
    ∃ s, machine.exec (fun _ _ => True) start lateAnswer = some s ∧ s.expectedId = 6 ∧
      s.incoming.length = 1 ∧ ∃ s', machine.Leads Willing s s' ∧
        Answered ⟨1, 6, 128⟩ (ascii "\x7b\"id\":6,\"result\":false\x7d") s' := by
  have hexec : (machine.exec (fun _ _ => True) start lateAnswer).map
      (fun s => (s.expectedId, s.incoming.length, s.calls)) = some (6, 1, 1) := by decide +kernel
  obtain ⟨s, hs, hstate⟩ := Option.map_eq_some_iff.mp hexec
  simp only [Prod.mk.injEq] at hstate
  obtain ⟨hexpected, hin, hcalls⟩ := hstate
  have hsucceeds : ∃ s', machine.Leads Willing s s' ∧
      Answered ⟨s.calls, 6, 128⟩ (ascii "\x7b\"id\":6,\"result\":false\x7d") s' :=
    call_succeeds s (by decide) (by decide +kernel) (by decide +kernel) (by decide +kernel)
  rw [hcalls] at hsucceeds
  exact ⟨s, hs, hexpected, hin, hsucceeds⟩

end Client

end OtiKiosk
