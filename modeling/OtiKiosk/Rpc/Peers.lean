import OtiKiosk.Lib.Transition
import OtiKiosk.Rpc.Replies

/-!
Two contexts on the two ends of a connection. The application on one end sends frames
with `jsonrpc_call`; bytes arrive one at a time, in order, whenever they do, and
whatever a context hands to its sender goes back to the other end.
-/

namespace OtiKiosk

open Ascii Json

/-- What is handed to the sender. -/
def sentText (effects : List RpcEffect) : Bytes :=
  effects.flatMap fun e => match e with
    | .sent piece => piece
    | _ => []

def responses (effects : List RpcEffect) : List Bytes :=
  effects.filterMap fun e => match e with
    | .response frame => some frame
    | _ => none

theorem sentText_append (a b : List RpcEffect) : sentText (a ++ b) = sentText a ++ sentText b :=
  List.flatMap_append

theorem sentText_sent (pieces : List Bytes) : sentText (pieces.map .sent) = pieces.flatten := by
  induction pieces with
  | nil => rfl
  | cons p pieces ih => exact congrArg (p ++ ·) ih

theorem responses_append (a b : List RpcEffect) : responses (a ++ b) = responses a ++ responses b :=
  List.filterMap_append

namespace RpcCtx

theorem feed_append (ctx : RpcCtx) (a b : Bytes) :
    ctx.feed (a ++ b) = (((ctx.feed a).1.feed b).1, (ctx.feed a).2 ++ ((ctx.feed a).1.feed b).2) := by
  induction a generalizing ctx with
  | nil => rfl
  | cons ch a ih =>
      simp only [List.cons_append, feed, ih, List.append_assoc]

theorem feed_byte (ctx : RpcCtx) (a : Bytes) (ch : UInt8) :
    ctx.feed (a ++ [ch]) =
      (((ctx.feed a).1.processByte ch).1, (ctx.feed a).2 ++ ((ctx.feed a).1.processByte ch).2) := by
  rw [feed_append]
  simp only [feed, List.append_nil]

end RpcCtx

/-- The frames that a beginning of a stream of frames brings are the first of them. -/
theorem RpcFrame.feed_prefix (ctx : RpcCtx) (h : ctx.inLen = 0) {fs : List RpcFrame} {s : Bytes}
    (hs : s <+: Lines.join newline (fs.map text)) :
    ∃ k, (ctx.feed s).2 = (fs.take k).flatMap (fun f => f.effects ctx) ∧
      (s = Lines.join newline (fs.map text) → fs.take k = fs) := by
  have hlines : ∀ l ∈ fs.map text, newline ∉ l := by
    intro l hl
    obtain ⟨f, -, rfl⟩ := List.mem_map.mp hl
    exact f.oneLine
  have hcut := Lines.cut_join hlines []
  rw [List.append_nil] at hcut
  have hpre := Lines.cut_prefix (d := newline) hs
  rw [hcut] at hpre
  simp only [Lines.cut, List.append_nil] at hpre
  -- what is behind the last complete line draws nothing
  obtain ⟨hjoin, hrest, -⟩ := Lines.cut_spec (d := newline) s
  have htake : (Lines.cut newline s).1 = (fs.take (Lines.cut newline s).1.length).map text := by
    rw [List.map_take]
    exact (List.prefix_iff_eq_take.mp hpre)
  refine ⟨(Lines.cut newline s).1.length, ?_, ?_⟩
  · obtain ⟨hsame, hempty, heffects⟩ :=
      RpcFrame.feed_join ctx h (fs.take (Lines.cut newline s).1.length)
    rw [← htake] at hsame hempty heffects
    obtain ⟨-, -, handed, hmore, hframes⟩ := (RpcCtx.Pending.nil hempty).feed List.not_mem_nil
      (Lines.cut newline s).2
    rw [List.nil_append, framesOf, Lines.cut_open hrest, List.map_nil, List.filter_nil,
      List.map_eq_nil_iff] at hframes
    rw [hframes, List.flatMap_nil] at hmore
    have hsplit := ctx.feed_append (Lines.join newline (Lines.cut newline s).1)
      (Lines.cut newline s).2
    rw [hjoin] at hsplit
    rw [hsplit, hmore, List.append_nil, heffects]
  · rintro rfl
    rw [hcut]
    simp only [Lines.cut, List.append_nil, List.length_map, List.take_length]

/-- The ends of the connection, and what was called and delivered, the oldest first. A call is the
frame that is sent, and the reply to it, if there is one. -/
structure Peers where
  client : RpcCtx
  server : RpcCtx
  toServer : Bytes
  toClient : Bytes
  calls : List (RpcFrame × Option RpcFrame)
  delivered : List Bytes

namespace Peers

inductive Action
  | call (frame : RpcFrame) (reply : Option RpcFrame)
  | serverByte
  | clientByte

def step (s : Peers) : Action → Option Peers
  | .call frame reply =>
      some { s with
        toServer := s.toServer ++ (frame.text ++ [newline])
        calls := s.calls ++ [(frame, reply)] }
  | .serverByte =>
      match s.toServer with
      | [] => none
      | ch :: toServer =>
          some { s with
            server := (s.server.processByte ch).1
            toServer := toServer
            toClient := s.toClient ++ sentText (s.server.processByte ch).2 }
  | .clientByte =>
      match s.toClient with
      | [] => none
      | ch :: toClient =>
          some { s with
            client := (s.client.processByte ch).1
            toClient := toClient
            toServer := s.toServer ++ sentText (s.client.processByte ch).2
            delivered := s.delivered ++ responses (s.client.processByte ch).2 }

def start (client server : RpcCtx) : Peers where
  client := client.reset
  server := server.reset
  toServer := []
  toClient := []
  calls := []
  delivered := []

def machine (client server : RpcCtx) : Machine Peers Action where
  start s := s = start client server
  step := step

/-- What the server sends for the frame is the reply, a success on one line, or nothing. -/
def Answers (server : RpcCtx) (frame : RpcFrame) : Option RpcFrame → Prop
  | some reply => sentText (frame.effects server) = reply.text ++ [newline] ∧
      reply.value.dispatch = .response
  | none => sentText (frame.effects server) = []

instance (server : RpcCtx) (frame : RpcFrame) : DecidablePred (Answers server frame)
  | some _ => inferInstanceAs (Decidable (_ ∧ _))
  | none => inferInstanceAs (Decidable (_ = _))

/-- A method that returns a success answers the requests for it, if the reply fits, and the reply is
a response to whoever receives it. -/
theorem answers_success {server : RpcCtx} {frame reply : RpcFrame} {name : Bytes} {r : RpcRequest}
    {m : RpcMethod} {w : Value} {f : ValueFormat} (hframe : frame.value.dispatch = .request name r)
    (hmethod : server.methods.find? (·.method = name) = some m) (hid : r.id = w.text)
    (hcb : jsonrpcReturnSuccessv r (some (f.fmt, f.args)) = some (m.cb r))
    (hreply : reply.value = object [(ascii "id", w), (ascii "result", f.value)]) :
    Answers server frame (some reply) ∧
      ∀ receiver : RpcCtx, (receiver.reset.feed (reply.text ++ [newline])).2 =
        if receiver.responseCb then [.response reply.text] else [] := by
  have hne : r.id ≠ [] := by
    rw [hid]
    exact RpcFrame.id_ne_nil hreply
  obtain ⟨pieces, hpieces, htext⟩ := returnSuccess_text hne f
  obtain rfl : m.cb r = pieces := Option.some.inj (hcb.symm.trans hpieces)
  have hdispatch : reply.value.dispatch = .response := by
    rw [hreply, Phrase.dispatch, object_get]
    rfl
  refine ⟨⟨?_, hdispatch⟩, fun receiver => RpcFrame.feed_response receiver hdispatch⟩
  rw [RpcFrame.effects, hframe]
  simp only [hmethod]
  show sentText ((m.cb r).map .sent) = _
  rw [sentText_sent, htext, hid, replyText_eq, ← hreply]
  rfl

def Answered (server : RpcCtx) : Peers → Action → Prop
  | _, .call frame reply => Answers server frame reply
  | _, .serverByte => True
  | _, .clientByte => True

instance (server : RpcCtx) : ∀ s a, Decidable (Answered server s a)
  | _, .call _ _ => inferInstanceAs (Decidable (Answers _ _ _))
  | _, .serverByte => inferInstanceAs (Decidable True)
  | _, .clientByte => inferInstanceAs (Decidable True)

def frames (s : Peers) : List RpcFrame := s.calls.map Prod.fst
def replies (s : Peers) : List RpcFrame := s.calls.filterMap Prod.snd

section

variable {client server : RpcCtx}

/-- What the server sends for the frames are the replies. -/
theorem sent_frames {calls : List (RpcFrame × Option RpcFrame)}
    (h : ∀ c ∈ calls, Answers server c.1 c.2) :
    sentText ((calls.map Prod.fst).flatMap fun f => f.effects server) =
      Lines.join newline ((calls.filterMap Prod.snd).map RpcFrame.text) := by
  induction calls with
  | nil => rfl
  | cons c calls ih =>
      obtain ⟨hc, hcalls⟩ := List.forall_mem_cons.mp h
      obtain ⟨frame, reply⟩ := c
      rw [List.map_cons, List.flatMap_cons, sentText_append, ih hcalls]
      cases reply with
      | none =>
          have hnone : sentText (frame.effects server) = [] := hc
          show sentText (frame.effects server) ++ _ = _
          rw [hnone]
          rfl
      | some reply =>
          have hsome : sentText (frame.effects server) = reply.text ++ [newline] := hc.1
          show sentText (frame.effects server) ++ _ = _
          rw [hsome]
          rfl

/-- What the client does with successes. -/
theorem client_effects (client : RpcCtx) (hcb : client.responseCb = true) {fs : List RpcFrame}
    (h : ∀ f ∈ fs, f.value.dispatch = .response) :
    fs.flatMap (fun f => f.effects client) = (fs.map RpcFrame.text).map .response := by
  induction fs with
  | nil => rfl
  | cons f fs ih =>
      obtain ⟨hf, hfs⟩ := List.forall_mem_cons.mp h
      have heffects : f.effects client = [.response f.text] := by
        rw [RpcFrame.effects, hf]
        show (if client.responseCb = true then _ else _) = _
        rw [if_pos hcb]
      rw [List.flatMap_cons, heffects, ih hfs]
      rfl

/-- A response is not sent, and each is delivered. -/
theorem sentText_response (frames : List Bytes) : sentText (frames.map .response) = [] := by
  induction frames with
  | nil => rfl
  | cons _ _ ih => exact ih

theorem responses_response (frames : List Bytes) : responses (frames.map .response) = frames := by
  induction frames with
  | nil => rfl
  | cons frame frames ih => exact congrArg (frame :: ·) ih

/-- What holds in every state: what each end has received so far, and what is still on its way. -/
structure Inv (client server : RpcCtx) (s : Peers) (atServer atClient : Bytes) : Prop where
  serverEnd : s.server = (server.reset.feed atServer).1
  clientEnd : s.client = (client.reset.feed atClient).1
  called : atServer ++ s.toServer = Lines.join newline (s.frames.map RpcFrame.text)
  sent : atClient ++ s.toClient = sentText (server.reset.feed atServer).2
  received : s.delivered = responses (client.reset.feed atClient).2
  answered : ∀ c ∈ s.calls, Answers server c.1 c.2

section

variable {s : Peers} {atServer atClient : Bytes}

theorem Inv.replies_response (h : Inv client server s atServer atClient) :
    ∀ r ∈ s.replies, r.value.dispatch = .response := by
  intro r hr
  obtain ⟨c, hc, hreply⟩ := List.mem_filterMap.mp hr
  have hanswer := h.answered c hc
  rw [hreply] at hanswer
  exact hanswer.2

/-- What the server has sent so far is a beginning of the replies. -/
theorem Inv.sent_prefix (h : Inv client server s atServer atClient) :
    atClient ++ s.toClient <+: Lines.join newline (s.replies.map RpcFrame.text) ∧
      (s.toServer = [] → atClient ++ s.toClient =
        Lines.join newline (s.replies.map RpcFrame.text)) := by
  have hpre : atServer <+: Lines.join newline (s.frames.map RpcFrame.text) :=
    ⟨s.toServer, h.called⟩
  obtain ⟨k, heffects, hall⟩ := RpcFrame.feed_prefix server.reset rfl hpre
  have hsent : atClient ++ s.toClient =
      Lines.join newline (((s.calls.take k).filterMap Prod.snd).map RpcFrame.text) := by
    have hframes := sent_frames fun c (hc : c ∈ s.calls.take k) =>
      h.answered c (List.mem_of_mem_take hc)
    rw [h.sent, heffects, ← hframes, frames, List.map_take]
    rfl
  have hsplit : s.replies = (s.calls.take k).filterMap Prod.snd ++
      (s.calls.drop k).filterMap Prod.snd := by
    rw [replies, ← List.filterMap_append, List.take_append_drop]
  refine ⟨?_, ?_⟩
  · rw [hsent, hsplit, List.map_append, Lines.join_append]
    exact List.prefix_append _ _
  · intro hempty
    have hcalled := h.called
    rw [hempty, List.append_nil] at hcalled
    have hlen : s.calls.length ≤ k := by
      have htake := congrArg List.length (hall hcalled)
      rw [List.length_take, frames, List.length_map] at htake
      omega
    rw [hsent, replies, List.take_of_length_le hlen]

/-- The client hands over a beginning of the replies, and sends nothing. -/
theorem Inv.client_feed (hcb : client.responseCb = true) (h : Inv client server s atServer atClient)
    {more : Bytes} (hmore : more <+: Lines.join newline (s.replies.map RpcFrame.text)) :
    ∃ k, (client.reset.feed more).2 = ((s.replies.take k).map RpcFrame.text).map .response ∧
      (more = Lines.join newline (s.replies.map RpcFrame.text) → s.replies.take k = s.replies) := by
  obtain ⟨k, heffects, hall⟩ := RpcFrame.feed_prefix client.reset rfl hmore
  refine ⟨k, ?_, hall⟩
  rw [heffects]
  exact client_effects client.reset hcb fun f hf =>
    h.replies_response f (List.mem_of_mem_take hf)

end

/-- One step. -/
theorem inv_step (hcb : client.responseCb = true) {s s' : Peers} {a : Action}
    (h : ∃ atServer atClient, Inv client server s atServer atClient) (hg : Answered server s a)
    (hs : step s a = some s') : ∃ atServer atClient, Inv client server s' atServer atClient := by
  obtain ⟨atServer, atClient, h⟩ := h
  cases a with
  | call frame reply =>
      obtain rfl := Option.some.inj hs
      refine ⟨atServer, atClient, h.serverEnd, h.clientEnd, ?_, h.sent, h.received, ?_⟩
      · show atServer ++ (s.toServer ++ _) =
          Lines.join newline (((s.calls ++ [(frame, reply)]).map Prod.fst).map RpcFrame.text)
        rw [← List.append_assoc, h.called, List.map_append, List.map_append, Lines.join_append]
        simp only [Lines.join, List.map_singleton, List.flatMap_singleton]
        rfl
      · intro c hc
        rcases List.mem_append.mp hc with hold | hnew
        · exact h.answered c hold
        · rw [List.mem_singleton.mp hnew]
          exact hg
  | serverByte =>
      rw [step] at hs
      cases hwire : s.toServer with
      | nil => simp only [hwire, reduceCtorEq] at hs
      | cons ch rest =>
          simp only [hwire, Option.some.injEq] at hs
          have hcalled := h.called
          rw [hwire] at hcalled
          subst hs
          have hfeed := server.reset.feed_byte atServer ch
          rw [← h.serverEnd] at hfeed
          refine ⟨atServer ++ [ch], atClient, ?_, h.clientEnd, ?_, ?_, h.received, h.answered⟩
          · rw [hfeed]
          · refine Eq.trans ?_ hcalled
            rw [List.append_assoc]
            rfl
          · rw [hfeed, sentText_append, ← h.sent, List.append_assoc]
  | clientByte =>
      rw [step] at hs
      cases hwire : s.toClient with
      | nil => simp only [hwire, reduceCtorEq] at hs
      | cons ch rest =>
          simp only [hwire, Option.some.injEq] at hs
          have hsent := h.sent
          rw [hwire] at hsent
          have hfeed := client.reset.feed_byte atClient ch
          rw [← h.clientEnd] at hfeed
          -- the client's answer to a byte of a reply is no text
          have hmore : atClient ++ [ch] <+: Lines.join newline (s.replies.map RpcFrame.text) := by
            refine List.IsPrefix.trans ?_ h.sent_prefix.1
            rw [hwire]
            exact ⟨rest, by rw [List.append_assoc, List.singleton_append]⟩
          obtain ⟨k, heffects, -⟩ := h.client_feed hcb hmore
          have hnothing : sentText (s.client.processByte ch).2 = [] := by
            have hall : sentText (client.reset.feed (atClient ++ [ch])).2 = [] := by
              rw [heffects]
              exact sentText_response _
            rw [hfeed, sentText_append] at hall
            exact (List.append_eq_nil_iff.mp hall).2
          subst hs
          refine ⟨atServer, atClient ++ [ch], h.serverEnd, ?_, ?_, ?_, ?_, h.answered⟩
          · rw [hfeed]
          · rw [hnothing, List.append_nil]
            exact h.called
          · rw [← hsent, List.append_assoc]
            rfl
          · rw [hfeed, responses_append, ← h.received]

/-- **Delivery**: in every state of every run whose calls the server answers, the client's callback
was called with the replies to the first calls, each once and in the order of the calls; with all of
them, once nothing is on its way. -/
theorem delivered_in_order (hcb : client.responseCb = true) {s : Peers}
    (h : (machine client server).Reach (Answered server) s) :
    s.delivered <+: s.replies.map RpcFrame.text ∧
      (s.toServer = [] → s.toClient = [] → s.delivered = s.replies.map RpcFrame.text) := by
  have hinv : ∃ atServer atClient, Inv client server s atServer atClient := by
    refine h.invariant (fun s hs => ?_) fun s a s' hI hg hs => inv_step hcb hI hg hs
    obtain rfl : s = start client server := hs
    exact ⟨[], [], rfl, rfl, rfl, rfl, rfl, fun c hc => absurd hc List.not_mem_nil⟩
  obtain ⟨atServer, atClient, hinv⟩ := hinv
  obtain ⟨hpre, hall⟩ := hinv.sent_prefix
  have hreceived : atClient <+: Lines.join newline (s.replies.map RpcFrame.text) :=
    (List.prefix_append _ _).trans hpre
  obtain ⟨k, heffects, hevery⟩ := hinv.client_feed hcb hreceived
  have hdelivered : s.delivered = (s.replies.take k).map RpcFrame.text := by
    rw [hinv.received, heffects, responses_response]
  refine ⟨?_, ?_⟩
  · rw [hdelivered, List.map_take]
    exact List.take_prefix _ _
  · intro hserver hclient
    have hcomplete := hall hserver
    rw [hclient, List.append_nil] at hcomplete
    rw [hdelivered, hevery hcomplete]

end

/-! ### A call -/

def threeMethod : RpcMethod where
  method := ascii "three"
  cb r := (jsonrpcReturnSuccessv r (some (ascii "%d", [.int 3]))).getD []

def threeRequest : RpcFrame where
  value := object [(ascii "id", .number (ascii "7")), (ascii "method", .string (ascii "three"))]
  wf := by decide +kernel
  depth := by decide
  node := ⟨.curly, _, rfl⟩
  oneLine := by decide
  fits := by decide +kernel

def threeReply : RpcFrame where
  value := object [(ascii "id", .number (ascii "7")), (ascii "result", .number (ascii "3"))]
  wf := by decide +kernel
  depth := by decide
  node := ⟨.curly, _, rfl⟩
  oneLine := by decide
  fits := by decide +kernel

def threeRun : List Action :=
  .call threeRequest (some threeReply) :: List.replicate (threeRequest.text.length + 1) .serverByte ++
    List.replicate (threeReply.text.length + 1) .clientByte

theorem answers_success_three :
    Answers (rpcCtx [threeMethod] false) threeRequest (some threeReply) ∧
      ∀ receiver : RpcCtx, (receiver.reset.feed (threeReply.text ++ [newline])).2 =
        if receiver.responseCb then [.response threeReply.text] else [] :=
  answers_success (r := ⟨[], ascii "7"⟩) (m := threeMethod)
    (w := .number (ascii "7")) (f := Printed.format (.int 3 true) trivial) rfl rfl rfl rfl rfl

theorem delivered_in_order_three :
    ∃ s : Peers, s.delivered = [threeReply.text] ∧ s.delivered <+: s.replies.map RpcFrame.text ∧
      (s.toServer = [] → s.toClient = [] → s.delivered = s.replies.map RpcFrame.text) := by
  have hrun : ((machine (rpcCtx [] true) (rpcCtx [threeMethod] false)).exec
      (Answered (rpcCtx [threeMethod] false)) (start (rpcCtx [] true) (rpcCtx [threeMethod] false))
      threeRun).any (fun s => s.delivered = [threeReply.text]) = true := by
    decide +kernel
  obtain ⟨s, hs, hdelivered⟩ := Option.any_eq_true _ _ |>.mp hrun
  exact ⟨s, of_decide_eq_true hdelivered,
    delivered_in_order (rfl : (rpcCtx [] true).responseCb = true) ⟨_, rfl, Machine.Leads.of_exec hs⟩⟩

end Peers

end OtiKiosk
