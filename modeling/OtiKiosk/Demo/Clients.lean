import OtiKiosk.Demo.Loop

/-!
The clients of the demo. `_wsi` and `_payment_status` are set by the events of every
client, whichever client the current transaction is for, so what they hold is a
function of the events processed so far. The flag is tested and acted on in
different iterations, but no event is processed in between.
-/

namespace OtiKiosk

open Ascii

/-- The steps between the decision to start a transaction and the entry into `ST_TRANS`. -/
def MainPc.deciding : MainPc → Prop
  | .expirationTest | .checkStatus | .lostTest | .lostCheck | .lostInit | .stateTest | .assign =>
      True
  | _ => False

namespace Demo

def clientsOf : List DemoEvent → List ℕ
  | [] => []
  | .established client :: history => client :: clientsOf history
  | .closed client :: history => (clientsOf history).erase client
  | .sent _ :: history | .accepted :: history | .completed _ :: history => clientsOf history

def lastConnection : List DemoEvent → Option ℕ
  | [] => none
  | .established client :: _ => some client
  | .closed _ :: history | .sent _ :: history | .accepted :: history | .completed _ :: history =>
      lastConnection history

/-- What the events leave in `_wsi`. -/
def designated : List DemoEvent → Option ℕ
  | [] => none
  | .established client :: _ => some client
  | .closed _ :: _ => none
  | .sent _ :: history | .accepted :: history | .completed _ :: history => designated history

theorem lastConnection_of_designated {history : List DemoEvent} {client : ℕ}
    (h : designated history = some client) : lastConnection history = some client := by
  induction history with
  | nil => cases h
  | cons e history ih =>
      cases e with
      | established client' => exact h
      | closed client' => cases h
      | sent cmd => exact ih h
      | accepted => exact ih h
      | completed resp => exact ih h

theorem mem_clientsOf_of_designated {history : List DemoEvent} {client : ℕ}
    (h : designated history = some client) : client ∈ clientsOf history := by
  induction history with
  | nil => cases h
  | cons e history ih =>
      cases e with
      | established client' =>
          obtain rfl : client' = client := Option.some.inj h
          exact List.mem_cons_self
      | closed client' => cases h
      | sent cmd => exact ih h
      | accepted => exact ih h
      | completed resp => exact ih h

/-! ### What the events leave behind -/

/-- The variables of the WebSocket callback follow its events. -/
structure Registered (s : Demo) : Prop where
  clients : s.connected = clientsOf s.history
  wsi : s.wsi = designated s.history
  flag : s.paymentStatus = true → ∃ client, s.wsi = some client

variable {s s' : Demo} {a : Action}

theorem registered_start (h : Start s) : Registered s := by
  refine ⟨?_, ?_, ?_⟩
  · rw [h.connected, h.history]
    rfl
  · rw [h.wsi, h.history]
    rfl
  · intro hset
    rw [h.paymentStatus] at hset
    cases hset

/-- Any number of events that are not about a client may be added. -/
theorem Registered.move (h : Registered s) (hclients : s'.connected = s.connected)
    (hwsi : s'.wsi = s.wsi) (hflag : s'.paymentStatus = true → s.paymentStatus = true)
    (hconnected : clientsOf s'.history = clientsOf s.history)
    (hdesignated : designated s'.history = designated s.history) : Registered s' where
  clients := by rw [hclients, hconnected, h.clients]
  wsi := by rw [hwsi, hdesignated, h.wsi]
  flag := by
    intro hset
    rw [hwsi]
    exact h.flag (hflag hset)

theorem registered_step (h : Registered s) (hs : Transition s a s') : Registered s' := by
  cases hs with
  | established client hpc hnew =>
      refine ⟨?_, rfl, fun _ => ⟨client, rfl⟩⟩
      exact congrArg (client :: ·) h.clients
  | closed client hpc hmem =>
      refine ⟨?_, rfl, ?_⟩
      · exact congrArg (List.erase · client) h.clients
      · intro hset
        cases hset
  | completeClear hpc =>
      refine h.move rfl rfl ?_ rfl rfl
      intro hset
      cases hset
  | _ => exact h.move rfl rfl id rfl rfl

/-! ### From the decision to the request -/

/-- A transaction is started only while the flag is set. -/
structure Decided (s : Demo) : Prop where
  pending : s.newState = .trans → s.curState ≠ .trans →
    s.curState = .idle ∧ s.pc.deciding ∧ s.paymentStatus = true
  /-- `ST_TRANS` is not entered from itself. -/
  assign : s.pc = .assign → s.newState = .trans → s.curState ≠ .trans
  asked : s.pc = .setTrans ∨ s.pc = .preAuthorize → s.paymentStatus = true

theorem decided_start (h : Start s) : Decided s := by
  refine ⟨?_, ?_, ?_⟩
  · intro hnew
    rw [h.newState] at hnew
    cases hnew
  · intro hpc
    rw [h.pc] at hpc
    cases hpc
  · rw [h.pc]
    rintro (hpc | hpc) <;> cases hpc

/-- Steps that leave the states and the flag alone. -/
theorem Decided.move (h : Decided s) (hcur : s'.curState = s.curState)
    (hnew : s'.newState = s.newState) (hflag : s'.paymentStatus = s.paymentStatus)
    (hdeciding : s.newState = .trans → s.curState = .idle → s.pc.deciding → s'.pc.deciding)
    (hassign : s'.pc = .assign → s.newState ≠ s.curState)
    (hasked : s'.pc = .setTrans ∨ s'.pc = .preAuthorize → s.paymentStatus = true) :
    Decided s' where
  pending := by
    rw [hcur, hnew, hflag]
    intro htrans hne
    obtain ⟨hidle, hpc, hset⟩ := h.pending htrans hne
    exact ⟨hidle, hdeciding htrans hidle hpc, hset⟩
  assign := by
    rw [hcur, hnew]
    intro hpc htrans hsame
    exact hassign hpc (htrans.trans hsame.symm)
  asked := by
    rw [hflag]
    exact hasked

/-- Nothing is decided in another `new_state`. -/
theorem Decided.other (hnew : s.newState ≠ .trans) (hset : s.pc ≠ .setTrans)
    (hsend : s.pc ≠ .preAuthorize) : Decided s where
  pending := fun htrans => (hnew htrans).elim
  assign := fun _ htrans => (hnew htrans).elim
  asked := fun hpc => hpc.elim (fun h => (hset h).elim) fun h => (hsend h).elim

theorem decided_goes {pc pc' : MainPc} (h : Decided s) (hpc : s.pc = pc) (hgoes : Goes s pc pc') :
    Decided { s with pc := pc' } := by
  refine h.move rfl rfl rfl ?_ ?_ ?_
  · rw [hpc]
    intro htrans hidle hdeciding
    cases hgoes with
    | noChange hsame => cases htrans.symm.trans (hsame.trans hidle)
    | expired _ _ hmessage => cases hidle.symm.trans hmessage
    | change _ | found _ | lost _ | notExpired _ => trivial
    | _ => exact hdeciding.elim
  · show pc' = .assign → _
    rintro rfl
    cases hgoes with
    | change hne => exact hne
  · show pc' = .setTrans ∨ pc' = .preAuthorize → _
    rintro (rfl | rfl)
    · cases hgoes with
      | requested hset _ => exact hset
    · cases hgoes

theorem decided_step (h : Decided s) (hlocated : Located s) (hs : Transition s a s') :
    Decided s' := by
  cases hs with
  | goes hpc hgoes => exact decided_goes h hpc hgoes
  | sets hpc hsets =>
      cases hsets with
      | setTrans =>
          -- the flag was tested in `ST_IDLE`
          have hidle := hlocated.at_pc hpc rfl
          have hset := h.asked (.inl hpc)
          refine ⟨fun _ _ => ⟨hidle, trivial, hset⟩, ?_, fun _ => hset⟩
          intro hassign
          cases hassign
      | _ => apply Decided.other <;> simp
  | shows line1 line2 hpc hshows =>
      refine h.move rfl rfl rfl ?_ ?_ ?_
      · rw [hpc]
        cases hshows <;> exact fun _ _ => False.elim
      · cases hshows <;> exact nofun
      · cases hshows <;> rintro (hasked | hasked) <;> cases hasked
  | returns hpc hreturns =>
      refine h.move rfl rfl rfl ?_ ?_ ?_
      · rw [hpc]
        cases hreturns with
        | initFailed _ hinit => rcases hinit with rfl | rfl | rfl <;> exact fun _ _ => False.elim
        | _ => exact fun _ _ => False.elim
      · cases hreturns <;> exact nofun
      · cases hreturns <;> rintro (hasked | hasked) <;> cases hasked
  | assign hpc =>
      have hne : s.newState = .trans → s.paymentStatus = true := by
        intro htrans
        exact (h.pending htrans (h.assign hpc htrans)).2.2
      refine ⟨fun htrans hcur => (hcur htrans).elim, ?_, ?_⟩
      · intro hassign
        cases hnew : s.newState <;> rw [hnew] at hassign <;> cases hassign
      · show entry s.newState = .setTrans ∨ entry s.newState = .preAuthorize → _
        cases hnew : s.newState with
        | trans => exact fun _ => hne hnew
        | _ => rintro (hasked | hasked) <;> cases hasked
  | callbackWrite hcb =>
      refine ⟨?_, ?_, h.asked⟩
      · intro htrans
        cases htrans
      · intro _ htrans
        cases htrans
  | established client hpc hnew =>
      have hnot : ¬s.pc.deciding := by rw [hpc]; exact id
      refine ⟨fun htrans hcur => ?_, h.assign, fun _ => rfl⟩
      exact (hnot (h.pending htrans hcur).2.1).elim
  | closed client hpc hmem =>
      have hnot : ¬s.pc.deciding := by rw [hpc]; exact id
      refine ⟨fun htrans hcur => ?_, h.assign, ?_⟩
      · exact (hnot (h.pending htrans hcur).2.1).elim
      · show s.pc = .setTrans ∨ s.pc = .preAuthorize → _
        rw [hpc]
        rintro (hasked | hasked) <;> cases hasked
  | completeClear hpc =>
      have hnot : ¬s.pc.deciding := by rw [hpc]; exact id
      refine ⟨fun htrans hcur => ?_, ?_, ?_⟩
      · exact (hnot (h.pending htrans hcur).2.1).elim
      · intro hassign
        cases hassign
      · rintro (hasked | hasked) <;> cases hasked
  | status ret status hpc =>
      refine h.move rfl rfl rfl (fun _ _ _ => trivial) ?_ ?_
      · intro hassign
        cases hassign
      · rintro (hasked | hasked) <;> cases hasked
  | statusAgain ret status hpc =>
      refine h.move rfl rfl rfl (fun _ _ _ => trivial) ?_ ?_
      · intro hassign
        cases hassign
      · rintro (hasked | hasked) <;> cases hasked
  | expiration hpc =>
      refine h.move rfl rfl rfl ?_ ?_ ?_
      · rcases hpc with hpc | hpc <;> rw [hpc] <;> exact fun _ _ => False.elim
      · intro hassign
        cases hassign
      · rintro (hasked | hasked) <;> cases hasked
  | preAuthorize hpc | accepted hpc | completeJson hpc | settle hpc =>
      refine h.move rfl rfl rfl ?_ ?_ ?_
      · rw [hpc]
        exact fun _ _ => False.elim
      · intro hassign
        cases hassign
      · rintro (hasked | hasked) <;> cases hasked
  | _ => exact ⟨h.pending, h.assign, h.asked⟩

theorem decided_of_reachable (h : machine.Reachable s) : Decided s := by
  have hboth : Located s ∧ Decided s := by
    apply h.invariant (I := fun s => Located s ∧ Decided s)
    · exact fun s hs => ⟨located_start hs, decided_start hs⟩
    · rintro s a s' ⟨hlocated, hdecided⟩ _ hstep
      have htransition := transition_of_step hstep
      exact ⟨located_step hlocated htransition, decided_step hdecided hlocated htransition⟩
  exact hboth.2

theorem registered_of_reachable (h : machine.Reachable s) : Registered s := by
  apply h.invariant
  · exact fun s => registered_start
  · exact fun s a s' hregistered _ hstep =>
      registered_step hregistered (transition_of_step hstep)

/-- `PreAuthorize` is sent by the `case` of `ST_TRANS` only. -/
theorem pc_of_preAuthorize {params : PaymentParameters} (hs : Transition s a s')
    (h : s'.history = .sent (.preAuthorize params) :: s.history) : s.pc = .preAuthorize := by
  cases hs with
  | preAuthorize hpc => exact hpc
  | settle hpc =>
      have hcmd := (List.cons.inj h).1
      split_ifs at hcmd <;> cases hcmd
  | shows | accepted | completion | established | closed => cases h
  | _ => exact (List.cons_ne_self _ _ h.symm).elim

/-- **No payment without a client.** -/
theorem preAuthorize_has_client {params : PaymentParameters} (h : machine.Reachable s)
    (hstep : machine.step s a = some s')
    (hsent : s'.history = .sent (.preAuthorize params) :: s.history) :
    s.paymentStatus = true ∧ ∃ client, s.wsi = some client ∧ client ∈ clientsOf s.history := by
  have hregistered := registered_of_reachable h
  have hpc := pc_of_preAuthorize (transition_of_step hstep) hsent
  have hset := (decided_of_reachable h).asked (.inr hpc)
  obtain ⟨client, hwsi⟩ := hregistered.flag hset
  refine ⟨hset, client, hwsi, ?_⟩
  apply mem_clientsOf_of_designated
  rw [← hregistered.wsi, hwsi]

/-- A client connects, and the next iteration asks for its payment. -/
theorem requestRun_has_client :
    ∃ s s', machine.step s .main = some s' ∧
      s'.history = .sent (.preAuthorize pmtParams) :: s.history ∧
      s.paymentStatus = true ∧ ∃ client, s.wsi = some client ∧ client ∈ clientsOf s.history := by
  have hexec : ((machine.exec (fun _ _ => True) boot requestRun.dropLast).map (·.pc)) =
      some .preAuthorize := by decide +kernel
  obtain ⟨s, hs, hpc⟩ := Option.map_eq_some_iff.mp hexec
  have hreach : machine.Reachable s := ⟨boot, boot_start, .of_exec hs⟩
  have hstep : machine.step s .main =
      some { s.send (.preAuthorize pmtParams) .preAuthorizeReturn with
        requested := s.requested + 1 } := by
    show s.mainStep = _
    rw [mainStep, hpc]
  exact ⟨s, _, hstep, rfl, preAuthorize_has_client hreach hstep rfl⟩

/-! ### Who gets the result -/

def Completing (s : Demo) (_ : Action) : Prop := s.pc = .completeClear ∨ s.pc = .completeJson

instance (s : Demo) (a : Action) : Decidable (Completing s a) :=
  inferInstanceAs (Decidable (_ ∨ _))

structure Completes (entered s : Demo) : Prop where
  entry : entered.pc = .completeClear
  leads : machine.Leads Completing entered s
  sends : s.pc = .completeJson

/-- `send_json_message` queues its message for `client`: it sets the flag, and asks the server to
call back when `_wsi` can be written to. -/
def Queues (s : Demo) (client : ℕ) : Prop := s.pc = .completeJson ∧ s.wsi = some client

structure Delivers (entered s : Demo) (client : ℕ) : Prop where
  only : ∀ other, s.Queues other → other = client
  queued : client ∈ entered.connected → s.Queues client

/-- What the clients have done since `client` asked, the last event first, does not keep the result
from it; `connected` are the clients that are left. -/
def Undisturbed (client : ℕ) (connected : List ℕ) : List DemoEvent → Prop
  | [] => True
  | .established other :: _ => other = client
  | .closed _ :: _ => client ∉ connected
  | .sent _ :: events | .accepted :: events | .completed _ :: events =>
      Undisturbed client connected events

theorem clients_stay {s₀ : Demo} (h : machine.Leads Completing s₀ s) :
    s.wsi = s₀.wsi ∧ s.connected = s₀.connected := by
  refine h.invariant (I := fun s => s.wsi = s₀.wsi ∧ s.connected = s₀.connected) ?_ ⟨rfl, rfl⟩
  rintro s a s' hstay hg hstep
  cases transition_of_step hstep with
  | established client hpc _ | closed client hpc _ =>
      -- the events of the clients are processed elsewhere
      rcases hg with hg | hg <;> cases hpc.symm.trans hg
  | _ => exact hstay

theorem history_step (hs : Transition s a s') :
    s'.history = s.history ∨ ∃ e, s'.history = e :: s.history := by
  cases hs with
  | shows | preAuthorize | accepted | settle | completion | established | closed =>
      exact .inr ⟨_, rfl⟩
  | _ => exact .inl rfl

def Asked (s : Demo) : Prop := ∀ events params before,
  s.history = events ++ .sent (.preAuthorize params) :: before →
    ∃ client, designated before = some client

theorem asked_step (h : Asked s) (hreach : machine.Reachable s)
    (hstep : machine.step s a = some s') : Asked s' := by
  intro events params before hhistory
  rcases history_step (transition_of_step hstep) with hsame | ⟨e, hadd⟩
  · exact h events params before (hsame.symm.trans hhistory)
  · rw [hadd] at hhistory
    cases events with
    | nil =>
        obtain ⟨rfl, rfl⟩ := List.cons.inj hhistory
        have hpc := pc_of_preAuthorize (transition_of_step hstep) hadd
        have hregistered := registered_of_reachable hreach
        rw [← hregistered.wsi]
        exact hregistered.flag ((decided_of_reachable hreach).asked (.inr hpc))
    | cons e' events => exact h events params before (List.cons.inj hhistory).2

theorem asked_of_reachable (h : machine.Reachable s) : Asked s := by
  have hboth : machine.Reachable s ∧ Asked s := by
    apply h.invariant (I := fun s => machine.Reachable s ∧ Asked s)
    · intro s hs
      refine ⟨⟨s, hs, .refl⟩, ?_⟩
      intro events params before hhistory
      rw [hs.history] at hhistory
      cases events <;> cases hhistory
    · rintro s a s' ⟨hreach, hasked⟩ _ hstep
      exact ⟨hreach.leads (.head trivial hstep .refl), asked_step hasked hreach hstep⟩
  exact hboth.2

/-- What `_wsi` holds, compared with the client that asked. -/
theorem designated_iff_undisturbed {client : ℕ} {before : List DemoEvent} (connected : List ℕ)
    (params : PaymentParameters) (h : designated before = some client) (events : List DemoEvent) :
    ((∀ other, designated (events ++ .sent (.preAuthorize params) :: before) = some other →
        other = client) ∧
      (client ∈ connected →
        designated (events ++ .sent (.preAuthorize params) :: before) = some client)) ↔
      Undisturbed client connected events := by
  induction events with
  | nil =>
      show (_ ↔ True)
      refine iff_of_true ⟨?_, fun _ => h⟩ trivial
      intro other hother
      exact Option.some.inj (hother.symm.trans h)
  | cons e events ih =>
      cases e with
      | established other =>
          simp only [List.cons_append, designated, Undisturbed, Option.some.injEq, forall_eq']
          tauto
      | closed other =>
          simp only [List.cons_append, designated, Undisturbed, reduceCtorEq, false_implies,
            implies_true, true_and]
      | sent cmd => exact ih
      | accepted => exact ih
      | completed resp => exact ih

def paidResponse : PaymentResponse := { PaymentResponse.zero with status := .ok }

def servedRun (clients : List Action) : List Action :=
  requestRun ++ [.kioskStarts, .result .ok, .main] ++ clients ++ List.replicate 3 .main ++
    [.completion paidResponse, .callback, .callback] ++ iterations [3]

theorem welcome_noNul : nul ∉ ascii "Welcome" := by decide

theorem pleaseWait_noNul : nul ∉ ascii "Please wait" := by decide

def welcomed : List DemoEvent :=
  [.sent (.showMessage ⟨ascii "Welcome", welcome_noNul⟩ ⟨ascii "Please wait", pleaseWait_noNul⟩),
    .established 1]

end Demo

end OtiKiosk
