import OtiKiosk.Client.Matching

/-!
What `send_receive` returns with `KIOSK_RET_OK` is one message with the id of its
command, in every run in which two things do not happen: that a response to
another call is posted after the semaphore was cleared, and that the receiver
stops waiting while its response is being handled.
-/

namespace OtiKiosk

open Ascii Json

/-- The call whose next step clears `sema_resp_ready`. -/
def AppPc.clearing : AppPc → Option Call
  | .clearReady call => some call
  | _ => none

def Msg.HasId (msg : Msg) (id : ℤ) : Prop := parseId msg.bytes msg.bytes.length = some id

namespace Client

/-- Neither thread is too fast for the other one. -/
structure Timely (s : ClientState) (a : Action) : Prop where
  clear : a = .app → ∀ call ∈ s.app.clearing, s.receiver.passed → bufferedId s = some call.id
  expire : a = .receiverTimeout → ¬Offered s

instance (s : ClientState) (a : Action) : Decidable (Timely s a) :=
  decidable_of_iff
    ((a = .app → ∀ call ∈ s.app.clearing, s.receiver.passed → bufferedId s = some call.id) ∧
      (a = .receiverTimeout → ¬Offered s))
    ⟨fun h => ⟨h.1, h.2⟩, fun h => ⟨h.clear, h.expire⟩⟩

/-- The message in the buffer is the one that was read last. -/
theorem Matched.head {Fits : Msg → Call → Prop} {s : ClientState} (h : Matched Fits s)
    (hreceiver : s.receiver ≠ .read) {id : ℤ} (hid : bufferedId s = some id) :
    ∃ msg, s.received.head? = some msg ∧ msg.HasId id := by
  cases hreceived : s.received with
  | nil => exact (h.read hreceiver hreceived).elim
  | cons msg received =>
      obtain ⟨hbuffer, hlen⟩ := h.buffer msg (by rw [hreceived]; rfl)
      refine ⟨msg, rfl, ?_⟩
      have hprefix : msg.bytes <+: OtiKiosk.workBuffer msg.bytes := List.prefix_append _ _
      rw [bufferedId, hbuffer, hlen] at hid
      rw [Msg.HasId, ← hid]
      exact (parseId_congr (take_message hprefix)).symm

theorem Timely.orderly {s : ClientState} {a : Action} (hg : Timely s a)
    (h : Matched (fun msg call => msg.HasId call.id) s) :
    Orderly (fun msg call => msg.HasId call.id) s a where
  clear := by
    intro ha call hcall hpassed
    have hreceiver : s.receiver ≠ .read := by
      intro hread
      rw [hread] at hpassed
      exact hpassed
    exact h.head hreceiver (hg.clear ha call (by rw [hcall]; rfl) hpassed)
  test := by
    intro _ call _ hpc _ hid
    exact h.head (hpc.trans_ne nofun) hid
  expire := hg.expire

/-- **Integrity.** -/
theorem returned_hasId {s : ClientState} (h : machine.Reach Timely s) :
    ∀ r ∈ s.returned, ∃ msg ∈ s.received, r.2 = msg.bytes ∧ msg.HasId r.1.id := by
  have hmatched : Matched (fun msg call => msg.HasId call.id) s := by
    apply h.invariant
    · rintro s rfl
      exact matched_start
    · intro s a s' hI hg hstep
      exact matched_step hI (hg.orderly hI) (transition_of_step hstep)
  exact hmatched.returned

def sendStatus : List Action := [.call 1 200, .app, .app, .app]

def receiveResponse : List Action := [.receiver, .receiver, .receiver, .receiver, .receiver]

def answeredRun : List Action :=
  sendStatus ++ .answer 0 readyAnswer.text :: receiveResponse ++
    [.app, .app, .app, .app, .app, .app, .receiver, .receiver]

theorem answeredRun_returned :
    ∃ s, machine.exec Timely start answeredRun = some s ∧
      s.returned = [(⟨0, 1, 200⟩, readyAnswer.text)] ∧
      ∀ r ∈ s.returned, ∃ msg ∈ s.received, r.2 = msg.bytes ∧ msg.HasId r.1.id := by
  have hexec : (machine.exec Timely start answeredRun).map (·.returned) =
      some [(⟨0, 1, 200⟩, readyAnswer.text)] := by decide +kernel
  obtain ⟨s, hs, hreturned⟩ := Option.map_eq_some_iff.mp hexec
  exact ⟨s, hs, hreturned, returned_hasId ⟨start, rfl, .of_exec hs⟩⟩

/-- The receiver gives up after the application has taken the semaphore, before it reads the
length. -/
def expiredRun : List Action :=
  sendStatus ++ .answer 0 readyAnswer.text :: receiveResponse ++
    [.app, .receiverTimeout, .receiver, .app, .app, .app, .app, .app]

/-- The call returns `KIOSK_RET_OK` with no response at all. -/
theorem expiredRun_returned :
    ∃ s, machine.Reachable s ∧ (⟨0, 1, 200⟩, []) ∈ s.returned ∧
      ¬∀ r ∈ s.returned, ∃ msg ∈ s.received, r.2 = msg.bytes ∧ msg.HasId r.1.id := by
  have hexec : (machine.exec (fun _ _ => True) start expiredRun).map
      (fun s => (s.returned, s.received)) =
        some ([(⟨0, 1, 200⟩, [])], [⟨readyAnswer.text, some 0⟩]) := by decide +kernel
  obtain ⟨s, hs, hlists⟩ := Option.map_eq_some_iff.mp hexec
  obtain ⟨hreturned, hreceived⟩ := Prod.mk.inj hlists
  refine ⟨s, ⟨start, rfl, .of_exec hs⟩, by rw [hreturned]; exact List.mem_singleton_self _, ?_⟩
  rw [hreturned, hreceived]
  intro h
  obtain ⟨msg, hmsg, hbytes, -⟩ := h _ (List.mem_singleton_self _)
  rw [List.mem_singleton.mp hmsg] at hbytes
  exact absurd hbytes (by decide +kernel)

end Client

end OtiKiosk
