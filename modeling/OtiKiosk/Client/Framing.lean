import OtiKiosk.Client.Reader
import OtiKiosk.Lib.Reactor

/-!
What the way a stream is cut into reads does to the messages in it. Every read is
taken for one message, so the effects are those of the messages if the reads that are
heeded are, one for one, the messages that are heeded. Between texts that some command
may wait for, nothing less will do.
-/

namespace OtiKiosk

open Ascii Json

/-- A stream of messages, and the pieces in which it is read. -/
structure Stream where
  messages : List Bytes
  chunks : List Bytes
  messages_size : ∀ m ∈ messages, 1 ≤ m.length ∧ m.length ≤ workBufferSize
  chunks_size : ∀ c ∈ chunks, 1 ≤ c.length ∧ c.length ≤ workBufferSize
  flatten_eq : chunks.flatten = messages.flatten

/-- What a message can have an effect by. -/
inductive Cargo
  /-- An answer that some command may wait for; it is handed on as a whole. -/
  | answer (msg : Bytes)
  | event (ack : Bytes) (resp : Option PaymentResponse)
  | readerEvent (e : ReaderEvent)

/-- What a message carries: one with an id that is not negative may be an answer, whatever else it
is; any other one may be an event. -/
def Socket.cargo (registered : Bool) : Socket → Bytes → Option Cargo
  | .commands => fun msg =>
      match parseId msg msg.length with
      | none => none
      | some id =>
          if 0 ≤ id then some (.answer msg)
          else (acceptedCompletion msg).map fun e =>
            .event (ackText e.1) (if registered then some e.2 else none)
  | .events => fun msg =>
      if registered then (parseReaderEvent msg msg.length).map .readerEvent else none

def Cargo.effects : Cargo → List Effect
  | .answer msg => [.response msg]
  | .event ack resp => .ack ack :: resp.toList.map .transactionComplete
  | .readerEvent e => [.readerEvent e]

theorem Cargo.effects_injective : Function.Injective Cargo.effects := by
  intro c c' h
  cases c with
  | answer msg =>
      cases c' with
      | answer msg' => simpa [effects] using h
      | event ack resp => simp [effects] at h
      | readerEvent e => simp [effects] at h
  | event ack resp =>
      cases c' with
      | answer msg' => simp [effects] at h
      | event ack' resp' =>
          simp only [effects, List.cons.injEq, Effect.ack.injEq] at h
          obtain ⟨rfl, h⟩ := h
          have hinj : Function.Injective Effect.transactionComplete := fun _ _ => by simp
          have hresp : resp.toList = resp'.toList := List.map_injective_iff.mpr hinj h
          cases resp <;> cases resp' <;> cases hresp <;> rfl
      | readerEvent e => simp [effects] at h
  | readerEvent e =>
      cases c' with
      | answer msg' => simp [effects] at h
      | event ack resp => simp [effects] at h
      | readerEvent e' => simpa [effects] using h

/-- The effect that each message has at least, if it has any. -/
def Effect.isHead : Effect → Bool
  | .transactionComplete _ => false
  | _ => true

theorem Cargo.effects_block (c : Cargo) : IsBlock Effect.isHead c.effects := by
  cases c with
  | answer msg => exact ⟨_, [], rfl, rfl, by simp⟩
  | event ack resp =>
      refine ⟨_, _, rfl, rfl, ?_⟩
      intro x hx
      obtain ⟨r, -, rfl⟩ := List.mem_map.mp hx
      rfl
  | readerEvent e => exact ⟨_, [], rfl, rfl, by simp⟩

def awaitedId (msg : Bytes) : ℤ := (parseId msg msg.length).getD (-1)

theorem eventEffects_eq (registered : Bool) (e : Option (ℤ × PaymentResponse)) :
    eventEffects registered e = ((e.map fun e =>
      Cargo.event (ackText e.1) (if registered then some e.2 else none)).map Cargo.effects).getD [] := by
  cases e with
  | none => rfl
  | some e =>
      obtain ⟨evtId, resp⟩ := e
      cases registered <;> rfl

/-- What is done with a message with this cargo, when it is waited for if it can be. -/
def draws (cargo : Option Cargo) : List Effect := (cargo.map Cargo.effects).getD []

theorem draws_injective {c c' : Option Cargo} (h : draws c = draws c') : c = c' := by
  have hne : ∀ c : Cargo, c.effects ≠ [] := by
    intro c hc
    cases c <;> cases hc
  cases c with
  | none =>
      cases c' with
      | none => rfl
      | some c' => exact (hne c' h.symm).elim
  | some c =>
      cases c' with
      | none => exact (hne c h).elim
      | some c' => exact congrArg some (Cargo.effects_injective h)

theorem draws_block (c : Option Cargo) : draws c = [] ∨ IsBlock Effect.isHead (draws c) := by
  cases c with
  | none => exact .inl rfl
  | some c => exact .inr c.effects_block

/-- A message is an answer to those who wait for it, and something else to the others; or it is the
same to all. -/
inductive Handling (registered : Bool) (socket : Socket) (msg : Bytes) : Prop
  | answer (id : ℤ) (other : Option Cargo) : socket.cargo registered msg = some (.answer msg) →
      (∀ m, other ≠ some (.answer m)) → awaitedId msg = id →
      (∀ e, socket.handle registered e msg =
        if e = id then [.response msg] else draws other) → Handling registered socket msg
  | event : (∀ m, socket.cargo registered msg ≠ some (.answer m)) →
      (∀ e, socket.handle registered e msg = draws (socket.cargo registered msg)) →
      Handling registered socket msg

theorem acceptedCompletion_none {msg : Bytes} (h : parseId msg msg.length = none) :
    acceptedCompletion msg = none := by
  simp only [acceptedCompletion, parseTransactionComplete, h]
  rfl

theorem handling (registered : Bool) (socket : Socket) (msg : Bytes) :
    Handling registered socket msg := by
  cases socket with
  | events =>
      refine .event ?_ ?_
      · intro m
        simp only [Socket.cargo]
        cases registered <;> cases parseReaderEvent msg msg.length <;> simp
      · intro e
        simp only [Socket.handle, readerEventReceived, Socket.cargo]
        cases registered <;> cases parseReaderEvent msg msg.length <;> rfl
  | commands =>
      have hother : ∀ e m, Option.map (fun e : ℤ × PaymentResponse => Cargo.event (ackText e.1)
          (if registered then some e.2 else none)) e ≠ some (.answer m) := by
        intro e m
        cases e <;> simp
      cases hid : parseId msg msg.length with
      | none =>
          refine .event ?_ ?_
          · simp [Socket.cargo, hid]
          · simp [Socket.handle, Socket.cargo, hid, acceptedCompletion_none hid, eventEffects, draws]
      | some id =>
          by_cases hneg : 0 ≤ id
          · refine .answer id _ ?_ (hother (acceptedCompletion msg)) ?_ ?_
            · simp [Socket.cargo, hid, hneg]
            · simp [awaitedId, hid]
            · intro e
              simp only [Socket.handle, hid, Option.some.injEq]
              by_cases he : e = id
              · rw [if_pos he, if_pos ⟨he ▸ hneg, he.symm⟩]
              · rw [if_neg he, if_neg fun h => he h.2.symm, eventEffects_eq]
                rfl
          · refine .event ?_ ?_
            · simp [Socket.cargo, hid, hneg]
            · intro e
              simp only [Socket.handle, Socket.cargo, hid, hneg, if_false, Option.some.injEq]
              rw [if_neg (by rintro ⟨h, rfl⟩; exact hneg h), eventEffects_eq]
              rfl

theorem handle_awaited (registered : Bool) (socket : Socket) (msg : Bytes) :
    socket.handle registered (awaitedId msg) msg = draws (socket.cargo registered msg) := by
  rcases handling registered socket msg with ⟨id, other, hcargo, -, hid, hhandle⟩ | ⟨-, hhandle⟩
  · rw [hhandle, if_pos hid, hcargo]
    rfl
  · exact hhandle _

/-- A socket as a component that reacts to messages, controlled by the id waited for. -/
def Socket.reactor (registered : Bool) (socket : Socket) : Reactor Bytes ℤ Effect where
  out := socket.handle registered
  isHead := Effect.isHead
  block := by
    intro e msg
    rcases handling registered socket msg with ⟨id, other, -, -, -, hhandle⟩ | ⟨-, hhandle⟩
    · rw [hhandle]
      split_ifs
      · exact .inr (Cargo.effects_block (.answer msg))
      · exact draws_block other
    · rw [hhandle]
      exact draws_block _
  want := awaitedId
  idle := by
    intro msg hnil e
    rw [handle_awaited] at hnil
    rcases handling registered socket msg with ⟨id, other, hcargo, -, -, -⟩ | ⟨-, hhandle⟩
    · rw [hcargo] at hnil
      cases hnil
    · rw [hhandle, hnil]
  same := by
    intro a b hab e
    rw [handle_awaited, handle_awaited] at hab
    have hcargo := draws_injective hab
    rcases handling registered socket a with ⟨id, other, ha, -, -, -⟩ | ⟨ha, hhandle⟩
    · rcases handling registered socket b with ⟨id', other', hb, -, -, -⟩ | ⟨hb, -⟩
      · rw [ha, hb] at hcargo
        cases hcargo
        rfl
      · exact (hb a (hcargo.symm.trans ha)).elim
    · rcases handling registered socket b with ⟨id', other', hb, -, -, -⟩ | ⟨-, hhandle'⟩
      · exact (ha b (hcargo.trans hb)).elim
      · rw [hhandle, hhandle', hcargo]
  exchange := by
    intro a b e e' hb ha
    rw [handle_awaited] at ha hb ⊢
    rw [handle_awaited]
    rcases handling registered socket a with ⟨id, other, hcargo, -, -, -⟩ | ⟨-, hhandle⟩
    · rcases handling registered socket b with ⟨id', other', hcargo', hother', -, hhandle'⟩ | ⟨-, hhandle'⟩
      · rw [hhandle'] at hb
        split_ifs at hb
        · rw [hcargo', ← hb]
          rfl
        · have := draws_injective hb
          exact (hother' a (this.trans hcargo)).elim
      · rw [← hb, hhandle']
    · rw [← ha, hhandle]

/-- What the application and the kiosk get to see of a stream. -/
def Socket.effects (registered : Bool) (stale : Stale) (socket : Socket)
    (expectedId : List Effect → ℤ) (reads : List Bytes) : List Effect :=
  kioskCommLoop (socket.recvCb registered stale) expectedId [] reads

theorem Socket.effects_eq (registered : Bool) (stale : Stale) (socket : Socket)
    (expectedId : List Effect → ℤ) (reads : List Bytes) :
    socket.effects registered stale expectedId reads =
      (socket.reactor registered).run expectedId [] reads := by
  have hloop : ∀ done, kioskCommLoop (socket.recvCb registered stale) expectedId done reads =
      (socket.reactor registered).run expectedId done reads := by
    induction reads with
    | nil => exact fun _ => rfl
    | cons chunk reads ih =>
        intro done
        rw [kioskCommLoop, Reactor.run, ih, socket.recvCb_eq]
        rfl
  exact hloop []

/-- Two streams have the same effects, however the application waits for answers, if and only if
they carry the same. -/
theorem effects_eq_iff_cargo (registered : Bool) (stale stale' : Stale) (socket : Socket)
    (reads reads' : List Bytes) :
    (∀ expectedId, socket.effects registered stale expectedId reads =
        socket.effects registered stale' expectedId reads') ↔
      reads.filterMap (socket.cargo registered) = reads'.filterMap (socket.cargo registered) := by
  have hne : ∀ c : Cargo, c.effects ≠ [] := by
    intro c hc
    cases c <;> cases hc
  rw [← (socket.reactor registered).equivalent_iff_carries Cargo.effects_injective hne
    (handle_awaited registered socket)]
  refine forall_congr' fun expectedId => ?_
  rw [socket.effects_eq, socket.effects_eq]

/-! ### Where a stream is cut -/

/-- The id of the message is not negative, so some command may wait for it, whatever it is. -/
def Socket.mayAnswer : Socket → Bytes → Bool
  | .commands => fun msg => (parseId msg msg.length).any fun id => 0 ≤ id
  | .events => fun _ => false

def Socket.heeds (registered : Bool) : Socket → Bytes → Bool
  | .commands => fun msg => Socket.commands.mayAnswer msg || (acceptedCompletion msg).isSome
  | .events => fun msg => registered && (parseReaderEvent msg msg.length).isSome

/-- A read that is a message; or none that may be an answer, and it begins with the same JSON as the
message, with any blanks before it and anything behind it. -/
inductive Socket.Matches (socket : Socket) (chunk msg : Bytes) : Prop
  | same : chunk = msg → socket.Matches chunk msg
  | begins {v : Value} {i j : ℕ} : socket.mayAnswer chunk = false → socket.mayAnswer msg = false →
      Denotes chunk chunk.length v i → Denotes msg msg.length v j → socket.Matches chunk msg

/-- The reads that are heeded are the messages that are heeded, one for one. -/
def Stream.Framed (stream : Stream) (registered : Bool) (socket : Socket) : Prop :=
  List.Forall₂ socket.Matches (stream.chunks.filter (socket.heeds registered))
    (stream.messages.filter (socket.heeds registered))

variable {registered : Bool} {socket : Socket}

theorem Socket.cargo_of_mayAnswer {msg : Bytes} (h : socket.mayAnswer msg = true) :
    socket.cargo registered msg = some (.answer msg) := by
  cases socket with
  | events => cases h
  | commands =>
      obtain ⟨id, hid, hpos⟩ := (Option.any_eq_true _ _).mp h
      simp only [Socket.cargo, hid, if_pos (of_decide_eq_true hpos)]

theorem Socket.cargo_of_not_mayAnswer {msg : Bytes} (h : Socket.commands.mayAnswer msg = false) :
    Socket.commands.cargo registered msg = (acceptedCompletion msg).map fun e =>
      .event (ackText e.1) (if registered then some e.2 else none) := by
  cases hid : parseId msg msg.length with
  | none => simp only [Socket.cargo, hid, acceptedCompletion_none hid, Option.map_none]
  | some id =>
      have hneg : ¬0 ≤ id := by
        intro hpos
        simp [Socket.mayAnswer, hid, hpos] at h
      simp only [Socket.cargo, hid, if_neg hneg]

theorem cargo_ne_answer {msg msg' : Bytes} (h : socket.mayAnswer msg = false) :
    socket.cargo registered msg ≠ some (.answer msg') := by
  cases socket with
  | events =>
      simp only [Socket.cargo]
      cases registered <;> cases parseReaderEvent msg msg.length <;> simp
  | commands =>
      rw [Socket.cargo_of_not_mayAnswer h]
      cases acceptedCompletion msg <;> simp

theorem Socket.heeds_eq (msg : Bytes) :
    socket.heeds registered msg = (socket.cargo registered msg).isSome := by
  cases socket with
  | events => cases registered <;> simp [Socket.heeds, Socket.cargo]
  | commands =>
      cases h : Socket.commands.mayAnswer msg with
      | true =>
          simp only [Socket.cargo_of_mayAnswer h, Socket.heeds, h, Bool.true_or, Option.isSome_some]
      | false =>
          simp only [Socket.cargo_of_not_mayAnswer h, Socket.heeds, h, Bool.false_or,
            Option.isSome_map]

theorem Socket.Matches.cargo_eq {chunk msg : Bytes} (h : socket.Matches chunk msg) :
    socket.cargo registered chunk = socket.cargo registered msg := by
  cases h with
  | same heq => rw [heq]
  | begins hchunk hmsg hv hv' =>
      cases socket with
      | events =>
          have hevent : parseReaderEvent chunk chunk.length = parseReaderEvent msg msg.length := by
            ext e
            rw [hv.parseReaderEvent_iff, hv'.parseReaderEvent_iff]
          simp only [Socket.cargo, hevent]
      | commands =>
          have haccepted : acceptedCompletion chunk = acceptedCompletion msg := by
            rw [acceptedCompletion, acceptedCompletion, hv.parseTransactionComplete_eq,
              hv'.parseTransactionComplete_eq]
          rw [Socket.cargo_of_not_mayAnswer hchunk, Socket.cargo_of_not_mayAnswer hmsg, haccepted]

theorem filterMap_cargo (reads : List Bytes) :
    (reads.filterMap (socket.cargo registered)).map some =
      (reads.filter (socket.heeds registered)).map (socket.cargo registered) := by
  induction reads with
  | nil => rfl
  | cons msg reads ih =>
      cases hcargo : socket.cargo registered msg with
      | none =>
          have hheeds : ¬socket.heeds registered msg = true := by simp [Socket.heeds_eq, hcargo]
          rw [List.filterMap_cons_none hcargo, List.filter_cons_of_neg hheeds, ih]
      | some c =>
          have hheeds : socket.heeds registered msg = true := by simp [Socket.heeds_eq, hcargo]
          rw [List.filterMap_cons_some hcargo, List.filter_cons_of_pos hheeds, List.map_cons,
            List.map_cons, ih, hcargo]

/-- What two streams carry is the same item by item. -/
theorem filterMap_cargo_eq_iff (reads reads' : List Bytes) :
    reads.filterMap (socket.cargo registered) = reads'.filterMap (socket.cargo registered) ↔
      List.Forall₂ (fun chunk msg => socket.cargo registered chunk = socket.cargo registered msg)
        (reads.filter (socket.heeds registered)) (reads'.filter (socket.heeds registered)) := by
  rw [← (List.map_injective_iff.mpr (Option.some_injective Cargo)).eq_iff, filterMap_cargo,
    filterMap_cargo, ← List.forall₂_eq_eq_eq, List.forall₂_map_left_iff, List.forall₂_map_right_iff]

/-- **Framing.** If the reads that are heeded are the messages that are heeded, the effects are those
of one read a message, however the application waits for answers. If the effects are always those,
as many reads are heeded as messages, in the order of the messages, and wherever one of them may be
an answer the read is the message. -/
theorem effects_of_framed (registered : Bool) (stale stale' : Stale) (socket : Socket)
    (stream : Stream) :
    (stream.Framed registered socket →
      ∀ expectedId, socket.effects registered stale expectedId stream.chunks =
        socket.effects registered stale' expectedId stream.messages) ∧
    ((∀ expectedId, socket.effects registered stale expectedId stream.chunks =
        socket.effects registered stale' expectedId stream.messages) →
      List.Forall₂ (fun chunk msg => socket.mayAnswer chunk ∨ socket.mayAnswer msg → chunk = msg)
        (stream.chunks.filter (socket.heeds registered))
        (stream.messages.filter (socket.heeds registered))) := by
  rw [effects_eq_iff_cargo, filterMap_cargo_eq_iff]
  constructor
  · exact fun h => h.imp fun _ _ hmatches => hmatches.cargo_eq
  · refine fun h => h.imp fun chunk msg hcargo hanswer => ?_
    -- an answer carries all of its bytes
    rcases hanswer with hchunk | hmsg
    · rw [Socket.cargo_of_mayAnswer hchunk] at hcargo
      cases hmsg : socket.mayAnswer msg with
      | true =>
          rw [Socket.cargo_of_mayAnswer hmsg] at hcargo
          exact Cargo.answer.inj (Option.some.inj hcargo)
      | false => exact (cargo_ne_answer hmsg hcargo.symm).elim
    · rw [Socket.cargo_of_mayAnswer hmsg] at hcargo
      cases hchunk : socket.mayAnswer chunk with
      | true =>
          rw [Socket.cargo_of_mayAnswer hchunk] at hcargo
          exact Cargo.answer.inj (Option.some.inj hcargo)
      | false => exact (cargo_ne_answer hchunk hcargo).elim

/-- An event of the reader and a newline, in one piece. -/
def linedStream : Stream where
  messages := [(readerMessage (ascii "1") (ascii "Insert card")).text, ascii "\n"]
  chunks := [(readerMessage (ascii "1") (ascii "Insert card")).text ++ ascii "\n"]
  messages_size := by decide +kernel
  chunks_size := by decide +kernel
  flatten_eq := by simp

theorem linedStream_effects :
    ∀ expectedId, Socket.events.effects true ⟨.zero 32, .zero⟩ expectedId linedStream.chunks =
      Socket.events.effects true ⟨.zero 32, .zero⟩ expectedId linedStream.messages := by
  apply (effects_of_framed true _ _ .events linedStream).1
  have hevent : Denotes (readerMessage (ascii "1") (ascii "Insert card")).text
      (readerMessage (ascii "1") (ascii "Insert card")).text.length
      (readerMessage (ascii "1") (ascii "Insert card")) 0 :=
    .of_text (by decide +kernel) (by decide +kernel) ⟨.curly, _, rfl⟩
  have hchunks : linedStream.chunks.filter (Socket.events.heeds true) = linedStream.chunks := by
    decide +kernel
  have hmessages : linedStream.messages.filter (Socket.events.heeds true) =
      [(readerMessage (ascii "1") (ascii "Insert card")).text] := by decide +kernel
  have hlined : Denotes ((readerMessage (ascii "1") (ascii "Insert card")).text ++ ascii "\n")
      ((readerMessage (ascii "1") (ascii "Insert card")).text ++ ascii "\n").length
      (readerMessage (ascii "1") (ascii "Insert card")) 0 := by
    refine ⟨hevent.wf, hevent.depth, hevent.node, ⟨[], ascii "\n", nofun, rfl, rfl⟩, ?_⟩
    rw [List.length_append]
    omega
  rw [Stream.Framed, hchunks, hmessages]
  exact .cons (.begins rfl rfl hlined hevent) .nil

/-- An answer and an event, in one piece. -/
def gluedStream : Stream where
  messages := [readyAnswer.text, (completionEvent (ascii "77")).text]
  chunks := [readyAnswer.text ++ (completionEvent (ascii "77")).text]
  messages_size := by decide +kernel
  chunks_size := by decide +kernel
  flatten_eq := by simp

/-- The event behind the answer is lost. -/
theorem gluedStream_effects :
    let stale : Stale := ⟨.zero 32, .zero⟩
    let expectedId : List Effect → ℤ := fun done => if done.length = 0 then 1 else -1
    Socket.commands.effects true stale expectedId gluedStream.chunks =
        [.response (readyAnswer.text ++ (completionEvent (ascii "77")).text)] ∧
      (Socket.commands.effects true stale expectedId gluedStream.messages).length = 3 ∧
      Socket.commands.effects true stale expectedId gluedStream.chunks ≠
        Socket.commands.effects true stale expectedId gluedStream.messages := by
  refine ⟨by decide +kernel, by decide +kernel, by decide +kernel⟩

end OtiKiosk
