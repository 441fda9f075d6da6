import OtiKiosk.Client.Events
import OtiKiosk.Client.Integrity

/-!
Which answer a call returns. The id says which method was called, and not which
call it was, so an answer that comes late is told from the awaited one only if it
has passed the receiver when the next call with its id begins, or is sent after
that call has returned.
-/

namespace OtiKiosk

open Ascii Json

/-- The call whose next step sets `_expected_id`. -/
def AppPc.setting : AppPc → Option Call
  | .setExpected call => some call
  | _ => none

namespace Client

def Action.notice : Action → Option Bytes
  | .notify bytes => some bytes
  | _ => none

def Action.answered : Action → Option ℕ
  | .answer number _ => some number
  | _ => none

instance (msg : Msg) (id : ℤ) : Decidable (msg.HasId id) :=
  inferInstanceAs (Decidable (_ = _))

/-- Nothing with this id is on its way to the test of the receiver. -/
structure Unused (s : ClientState) (id : ℤ) : Prop where
  incoming : ∀ msg ∈ s.incoming, ¬msg.HasId id
  test : s.receiver = .test → bufferedId s ≠ some id

instance (s : ClientState) (id : ℤ) : Decidable (Unused s id) :=
  decidable_of_iff
    ((∀ msg ∈ s.incoming, ¬msg.HasId id) ∧ (s.receiver = .test → bufferedId s ≠ some id))
    ⟨fun h => ⟨h.1, h.2⟩, fun h => ⟨h.incoming, h.test⟩⟩

/-- While a call is pending no other command with its id is answered, and no response is posted, or
given up, at the wrong moment. -/
structure Settled (s : ClientState) (a : Action) : Prop where
  fresh : a = .app → ∀ call ∈ s.app.setting, Unused s call.id
  late : ∀ number ∈ a.answered, ∀ call ∈ s.app.pending, ∀ c ∈ s.unanswered,
    c.number = number → c.id = call.id → number = call.number
  clear : a = .app → ∀ call ∈ s.app.clearing, ¬s.receiver.passed
  notice : ∀ bytes ∈ a.notice, ∀ call ∈ s.app.pending,
    parseId bytes bytes.length ≠ some call.id
  expire : a = .receiverTimeout → ¬Offered s

instance (s : ClientState) (a : Action) : Decidable (Settled s a) :=
  decidable_of_iff
    ((a = .app → ∀ call ∈ s.app.setting, Unused s call.id) ∧
      (∀ number ∈ a.answered, ∀ call ∈ s.app.pending, ∀ c ∈ s.unanswered,
        c.number = number → c.id = call.id → number = call.number) ∧
      (a = .app → ∀ call ∈ s.app.clearing, ¬s.receiver.passed) ∧
      (∀ bytes ∈ a.notice, ∀ call ∈ s.app.pending, parseId bytes bytes.length ≠ some call.id) ∧
      (a = .receiverTimeout → ¬Offered s))
    ⟨fun h => ⟨h.1, h.2.1, h.2.2.1, h.2.2.2.1, h.2.2.2.2⟩,
      fun h => ⟨h.fresh, h.late, h.clear, h.notice, h.expire⟩⟩

def Msg.Answers (msg : Msg) (call : Call) : Prop := msg.answers = some call.number

structure Sole (s : ClientState) (call : Call) : Prop where
  incoming : ∀ msg ∈ s.incoming, msg.HasId call.id → Msg.Answers msg call
  test : s.receiver = .test → ∀ msg, s.received.head? = some msg → msg.HasId call.id →
    Msg.Answers msg call

theorem Unused.sole {s s' : ClientState} {call : Call} (h : Unused s call.id)
    (hmatched : Matched Msg.Answers s) (hincoming : s'.incoming = s.incoming)
    (hreceiver : s'.receiver = s.receiver) (hreceived : s'.received = s.received) :
    Sole s' call where
  incoming := by
    rw [hincoming]
    exact fun msg hmsg hid => (h.incoming msg hmsg hid).elim
  test := by
    rw [hreceiver, hreceived]
    intro hpc msg hmsg hid
    obtain ⟨hbuffer, hlen⟩ := hmatched.buffer msg hmsg
    have hprefix : msg.bytes <+: OtiKiosk.workBuffer msg.bytes := List.prefix_append _ _
    refine (h.test hpc ?_).elim
    rw [bufferedId, hbuffer, hlen, parseId_congr (take_message hprefix)]
    exact hid

/-- Steps that send nothing else with the id, and after which the receiver tests nothing new. -/
theorem Sole.mono {s s' : ClientState} {call : Call} (h : Sole s call)
    (hincoming : ∀ msg ∈ s'.incoming, msg ∈ s.incoming ∨
      (msg.HasId call.id → Msg.Answers msg call))
    (htest : s'.receiver = .test → s.receiver = .test ∧ s'.received = s.received) :
    Sole s' call where
  incoming := by
    intro msg hmsg
    exact (hincoming msg hmsg).elim (h.incoming msg) id
  test := by
    intro hpc
    obtain ⟨hpc, hreceived⟩ := htest hpc
    rw [hreceived]
    exact h.test hpc

/-- The pending call, if there is one, is the only one whose answer is on its way. -/
def Exclusive (s : ClientState) : Prop := ∀ call, s.app.pending = some call → Sole s call

theorem exclusive_step {s s' : ClientState} {a : Action} (h : Exclusive s)
    (hmatched : Matched Msg.Answers s) (hg : Settled s a) (hs : Transition s a s') :
    Exclusive s' := by
  intro call hcall
  -- most steps leave the pending call and the messages as they are
  have hsame : s.app.pending = some call → (s'.receiver = .test → s.receiver = .test ∧
      s'.received = s.received) → s'.incoming = s.incoming → Sole s' call := by
    intro hpending htest hincoming
    refine (h call hpending).mono ?_ htest
    rw [hincoming]
    exact fun msg hmsg => .inl hmsg
  cases hs with
  | call id room _ => cases hcall
  | setExpected c hpc =>
      obtain rfl : c = call := Option.some.inj hcall
      exact (hg.fresh rfl c (by rw [hpc]; rfl)).sole hmatched rfl rfl rfl
  | clearReady c hpc => exact hsame (by rw [hpc]; exact hcall) (fun ht => ⟨ht, rfl⟩) rfl
  | write c hpc =>
      exact hsame (by rw [hpc]; exact hcall) (fun ht => ⟨ht, rfl⟩) rfl
  | writeFails c _ => cases hcall
  | waitReady c hpc _ => exact hsame (by rw [hpc]; exact hcall) (fun ht => ⟨ht, rfl⟩) rfl
  | appTimeout c _ => cases hcall
  | overflow c _ => cases hcall
  | compareLen c hpc => exact hsame (by rw [hpc]; exact hcall) (fun ht => ⟨ht, rfl⟩) rfl
  | readLen c hpc => exact hsame (by rw [hpc]; exact hcall) (fun ht => ⟨ht, rfl⟩) rfl
  | copy c respLen hpc => exact hsame (by rw [hpc]; exact hcall) (fun ht => ⟨ht, rfl⟩) rfl
  | postDone c resp hpc => exact hsame (by rw [hpc]; exact hcall) (fun ht => ⟨ht, rfl⟩) rfl
  | resetExpected c resp _ => cases hcall
  | read msg incoming _ hin =>
      have hsole := h call hcall
      refine ⟨fun m hm => hsole.incoming m ?_, ?_⟩
      · rw [hin]
        exact List.mem_cons_of_mem _ hm
      · rintro - m ⟨⟩
        exact hsole.incoming msg (by rw [hin]; exact List.mem_cons_self)
  | answer c bytes hc hid =>
      refine (h call hcall).mono ?_ fun ht => ⟨ht, rfl⟩
      intro msg hmsg
      rcases List.mem_append.mp hmsg with hmsg | hmsg
      · exact .inl hmsg
      · right
        rw [List.mem_singleton.mp hmsg]
        intro hmsgId
        have hsameId : c.id = call.id := Option.some.inj (hid.symm.trans hmsgId)
        exact congrArg some (hg.late c.number rfl call hcall c hc rfl hsameId)
  | notify bytes =>
      refine (h call hcall).mono ?_ fun ht => ⟨ht, rfl⟩
      intro msg hmsg
      rcases List.mem_append.mp hmsg with hmsg | hmsg
      · exact .inl hmsg
      · right
        rw [List.mem_singleton.mp hmsg]
        intro hmsgId
        exact (hg.notice bytes rfl call hcall hmsgId).elim
  | _ => exact hsame hcall nofun rfl

theorem Settled.orderly {s : ClientState} {a : Action} (hg : Settled s a) (h : Exclusive s)
    (hmatched : Matched Msg.Answers s) : Orderly Msg.Answers s a where
  clear := by
    intro ha call hcall hpassed
    exact (hg.clear ha call (by rw [hcall]; rfl) hpassed).elim
  test := by
    intro _ call hcall hpc _ hid
    have hpending : s.app.pending = some call := by
      cases happ : s.app with
      | write c | waitReady c =>
          rw [happ] at hcall
          exact hcall
      | _ =>
          rw [happ] at hcall
          cases hcall
    obtain ⟨msg, hmsg, hmsgId⟩ := hmatched.head (hpc.trans_ne nofun) hid
    exact ⟨msg, hmsg, (h call hpending).test hpc msg hmsg hmsgId⟩
  expire := hg.expire

/-- **Freshness.** -/
theorem returned_answers {s : ClientState} (h : machine.Reach Settled s) :
    ∀ r ∈ s.returned, ∃ msg ∈ s.received, r.2 = msg.bytes ∧ msg.answers = some r.1.number := by
  have hboth : Exclusive s ∧ Matched Msg.Answers s := by
    apply h.invariant (I := fun s => Exclusive s ∧ Matched Msg.Answers s)
    · rintro s rfl
      exact ⟨nofun, matched_start⟩
    · rintro s a s' ⟨hexclusive, hmatched⟩ hg hstep
      have htransition := transition_of_step hstep
      exact ⟨exclusive_step hexclusive hmatched hg htransition,
        matched_step hmatched (hg.orderly hexclusive hmatched) htransition⟩
  exact hboth.2.returned

def sendPreAuthorize : List Action := [.call 6 1024, .app, .app, .app]

def takeResponse : List Action := [.app, .app, .app, .app, .app, .app]

def preAuthorizeAnswer (result : Value) : Bytes :=
  (object [(ascii "jsonrpc", .string (ascii "2.0")), (ascii "result", result),
    (ascii "id", .number (ascii "6"))]).text

def settledRun : List Action :=
  sendPreAuthorize ++ .appTimeout :: .answer 0 (preAuthorizeAnswer .true) :: receiveResponse ++
    sendPreAuthorize ++ .receiverTimeout :: .receiver :: .answer 1 (preAuthorizeAnswer .false) ::
    receiveResponse ++ takeResponse

theorem settledRun_returned :
    ∃ s, machine.exec Settled start settledRun = some s ∧
      s.returned = [(⟨1, 6, 1024⟩, preAuthorizeAnswer .false)] ∧
      ∀ r ∈ s.returned, ∃ msg ∈ s.received, r.2 = msg.bytes ∧ msg.answers = some r.1.number := by
  have hexec : (machine.exec Settled start settledRun).map (·.returned) =
      some [(⟨1, 6, 1024⟩, preAuthorizeAnswer .false)] := by decide +kernel
  obtain ⟨s, hs, hreturned⟩ := Option.map_eq_some_iff.mp hexec
  exact ⟨s, hs, hreturned, returned_answers ⟨start, rfl, .of_exec hs⟩⟩

def lateRun : List Action :=
  sendPreAuthorize ++ .appTimeout :: sendPreAuthorize ++
    .answer 0 (preAuthorizeAnswer .true) :: receiveResponse ++ takeResponse

/-- The second call returns the answer to the first command. -/
theorem lateRun_returned :
    ∃ s, machine.Reachable s ∧ (⟨1, 6, 1024⟩, preAuthorizeAnswer .true) ∈ s.returned ∧
      ¬∀ r ∈ s.returned, ∃ msg ∈ s.received, r.2 = msg.bytes ∧
        msg.answers = some r.1.number := by
  have hexec : (machine.exec (fun _ _ => True) start lateRun).map
      (fun s => (s.returned, s.received)) =
        some ([(⟨1, 6, 1024⟩, preAuthorizeAnswer .true)],
          [⟨preAuthorizeAnswer .true, some 0⟩]) := by decide +kernel
  obtain ⟨s, hs, hlists⟩ := Option.map_eq_some_iff.mp hexec
  obtain ⟨hreturned, hreceived⟩ := Prod.mk.inj hlists
  refine ⟨s, ⟨start, rfl, .of_exec hs⟩, by rw [hreturned]; exact List.mem_singleton_self _, ?_⟩
  rw [hreturned, hreceived]
  intro h
  obtain ⟨msg, hmsg, -, hanswers⟩ := h _ (List.mem_singleton_self _)
  rw [List.mem_singleton.mp hmsg] at hanswers
  exact absurd hanswers (by decide)

end Client

end OtiKiosk
