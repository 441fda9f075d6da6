import OtiKiosk.Commands.Locality
import OtiKiosk.Rpc.Framing

/-!
What a context does with a frame that is an object or an array of JSON, told from the
members of the frame; and the replies as texts of objects.
-/

namespace OtiKiosk

open Ascii Json

/-! ### Lookups -/

section

variable {s : Bytes} {len : ℕ} {v : Value} {i : ℕ}

/-- In JSON, a member is found where it lies. -/
theorem Denotes.mjsonFindRange_eq (h : Denotes s len v i) {n : Bytes} (hn : IsName n) :
    mjsonFindRange s len (pathOf [n]) =
      (Located.member ⟨i, v⟩ n).map fun u => (u.off, u.value.text.length) := by
  have hseek := (seek_value hn v h.text_drop (.start [n])).found_eq
  rw [mjsonFindRange, h.mjson_eq]
  generalize (v.events i).foldl (mjsonGetCb s) (.start (pathOf [n])) = g at hseek
  have hdollar : ¬(pathOf [n]).headD nul ≠ dollar := by simp [pathOf]
  cases hu : Located.member ⟨i, v⟩ n with
  | none =>
      rw [hu, Found.of, GetData.found, Found.none, Found.mk.injEq] at hseek
      rw [if_pos (.inr hseek.1)]
      rfl
  | some u =>
      rw [hu, Found.of, GetData.found, Found.mk.injEq] at hseek
      obtain ⟨htok, hptr, hlen⟩ := hseek
      have hne := tok_ne_invalid u.value
      rw [← htok] at hne
      rw [if_neg (not_or.mpr ⟨hdollar, hne⟩), hptr, hlen]
      rfl

theorem Denotes.mjsonFindText_eq (h : Denotes s len v i) {n : Bytes} (hn : IsName n) :
    mjsonFindText s len (pathOf [n]) = ((v.get n).map (·.text)).getD [] := by
  rw [← Located.member_value ⟨i, v⟩, mjsonFindText, h.mjsonFindRange_eq hn]
  cases hu : Located.member ⟨i, v⟩ n with
  | none => rfl
  | some u =>
      obtain ⟨t, ht⟩ := (Located.member_in h.in hu).text
      simp only [Option.map_some, Option.getD_some]
      rw [← ht, List.take_left]

end

/-! ### Dispatch -/

def Json.Phrase.method? (v : Value) : Option Bytes :=
  ((v.get (ascii "method")).bind Phrase.string?).bind decode

/-- The text of a member, empty if there is none. -/
def Json.Phrase.memberText (v : Value) (name : Bytes) : Bytes := ((v.get name).map (·.text)).getD []

def Json.Phrase.dispatch (v : Value) : Dispatch :=
  if (v.get (ascii "result")).isSome then .response
  else
    match v.method? with
    | some method =>
        if 0 < method.length ∧ method.length < 50 then
          .request method ⟨v.memberText (ascii "params"), v.memberText (ascii "id")⟩
        else .invalid
    | none => .invalid

theorem rpc_paths : (ascii "$.result" = pathOf [ascii "result"] ∧
    ascii "$.method" = pathOf [ascii "method"]) ∧ ascii "$.params" = pathOf [ascii "params"] ∧
    ascii "$.id" = pathOf [ascii "id"] := by
  decide

theorem rpc_names : (IsName (ascii "result") ∧ IsName (ascii "method")) ∧
    IsName (ascii "params") ∧ IsName (ascii "id") := by
  decide

/-- The buffer for the name of the method has room for 49 bytes. -/
theorem request_of_unescape (raw : Bytes) (r : RpcRequest) :
    (match mjsonUnescape raw 50 with
      | (method, some (n + 1)) => Dispatch.request (method.take (n + 1)) r
      | _ => .invalid) =
      match decode raw with
      | some method => if 0 < method.length ∧ method.length < 50 then .request method r else .invalid
      | none => .invalid := by
  obtain ⟨w, l, hl⟩ : ∃ w l, mjsonUnescape raw 50 = (w, l) := ⟨_, _, rfl⟩
  cases l with
  | none =>
      -- a name that is decoded has no room
      rw [hl]
      cases hdecode : decode raw with
      | none => rfl
      | some m =>
          have hlong : ¬m.length < 50 := by
            intro hm
            rw [(mjsonUnescape_eq_iff raw m 50).mpr ⟨hdecode, hm⟩] at hl
            cases hl
          simp only [hlong, and_false, if_false]
  | some l =>
      obtain ⟨m, rfl, rfl, hdecode, hm⟩ := mjsonUnescape_some hl
      rw [hl, hdecode]
      cases m with
      | nil => rfl
      | cons c m =>
          have hpos : 0 < (c :: m).length := Nat.succ_pos _
          have htake : (c :: m ++ [nul]).take (c :: m).length = c :: m := List.take_left
          simp only [hpos, hm, and_self, if_true]
          exact congrArg (Dispatch.request · r) htake

section

variable {s : Bytes} {len : ℕ} {v : Value} {i : ℕ}

/-- Dispatch of a frame that is JSON goes by its members. -/
theorem Denotes.jsonrpcDispatch_eq (h : Denotes s len v i) : jsonrpcDispatch s len = v.dispatch := by
  obtain ⟨⟨hpresult, hpmethod⟩, hpparams, hpid⟩ := rpc_paths
  obtain ⟨⟨hresult, hmethod⟩, hparams, hid⟩ := rpc_names
  have hrange := h.mjsonFindRange_eq hresult
  have hstring := mjsonGetString_of (h.mjsonFind_member hmethod)
    (fun u hu => member_of_member h.in hu) 50
  have hraw : ((Located.member ⟨i, v⟩ (ascii "method")).bind fun u => u.value.string?) =
      (v.get (ascii "method")).bind Phrase.string? := by
    rw [← Located.member_value ⟨i, v⟩]
    cases Located.member ⟨i, v⟩ (ascii "method") <;> rfl
  have hiff : (∃ range ∈ (Located.member ⟨i, v⟩ (ascii "result")).map
      (fun u => (u.off, u.value.text.length)), 0 < range.2) ↔
      (v.get (ascii "result")).isSome = true := by
    rw [← Located.member_value ⟨i, v⟩]
    cases hu : Located.member ⟨i, v⟩ (ascii "result") with
    | none => simp
    | some u => simpa using text_pos (Located.member_in h.in hu).wf
  rw [jsonrpcDispatch, hpresult, hpmethod, hpparams, hpid, hrange, hstring,
    h.mjsonFindText_eq hparams, h.mjsonFindText_eq hid, Phrase.dispatch, if_congr hiff rfl rfl,
    Phrase.method?, hraw]
  split_ifs
  · rfl
  · cases (v.get (ascii "method")).bind Phrase.string? with
    | none => rfl
    | some raw => exact request_of_unescape raw _

end

/-! ### Frames that are JSON -/

/-- An object or an array nested at most 20 deep, on one line of at most 255 bytes. -/
structure RpcFrame where
  value : Value
  wf : value.WF mjsonLexicon
  depth : value.depth ≤ mjsonMaxDepth
  node : ∃ b items, value = .node b items
  oneLine : newline ∉ value.text
  fits : value.text.length < rpcInBufSize

namespace RpcFrame

variable (f : RpcFrame) (ctx : RpcCtx)

def text : Bytes := f.value.text

def effects : List RpcEffect :=
  match f.value.dispatch with
  | .response => if ctx.responseCb then [.response f.text] else []
  | .invalid => (invalidReply f.text).map .sent
  | .request method r =>
      match ctx.methods.find? (·.method = method) with
      | some m => .called m.method r :: (m.cb r).map .sent
      | none => (notFoundReply r).map .sent

theorem text_length : 1 < f.text.length := by
  obtain ⟨b, items, hnode⟩ := f.node
  rw [text, hnode]
  simp only [Phrase.text, List.length_cons, List.length_append]
  omega

/-- The frame is processed by its members, whatever lies behind it in the buffer. -/
theorem process_eq {req : Bytes} {reqSz : ℕ} (h : req.take reqSz = f.text) :
    jsonrpcCtxProcess ctx req reqSz = f.effects ctx := by
  have hlen : f.text.length ≤ reqSz := by
    rw [← h, List.length_take]
    exact Nat.min_le_left _ _
  have hden : Denotes req reqSz f.value 0 := by
    refine ⟨f.wf, f.depth, f.node, ⟨[], req.drop reqSz, isBlank_nil, rfl, ?_⟩, ?_⟩
    · show req = f.text ++ req.drop reqSz
      rw [← h, List.take_append_drop]
    · rw [Nat.zero_add]
      exact hlen
  rw [jsonrpcCtxProcess, hden.jsonrpcDispatch_eq, h]
  rfl

theorem framesOf_join (fs : List RpcFrame) :
    framesOf (Lines.join newline (fs.map text)) = fs.map text := by
  have hlines : ∀ l ∈ fs.map text, newline ∉ l := by
    intro l hl
    obtain ⟨f, -, rfl⟩ := List.mem_map.mp hl
    exact f.oneLine
  have hcut := Lines.cut_join hlines []
  rw [List.append_nil] at hcut
  rw [framesOf, hcut]
  simp only [Lines.cut, List.append_nil, List.map_map]
  have hlast : lastFrame ∘ text = text := by
    funext f
    exact lastFrame_of_lt f.fits
  rw [hlast, List.filter_eq_self]
  intro l hl
  obtain ⟨f, -, rfl⟩ := List.mem_map.mp hl
  exact decide_eq_true f.text_length

/-- Frames that follow each other are processed one by one, and leave the buffer empty. -/
theorem feed_join (h : ctx.inLen = 0) (fs : List RpcFrame) :
    RpcCtx.Same ctx (ctx.feed (Lines.join newline (fs.map text))).1 ∧
      (ctx.feed (Lines.join newline (fs.map text))).1.inLen = 0 ∧
      (ctx.feed (Lines.join newline (fs.map text))).2 = fs.flatMap fun f => f.effects ctx := by
  obtain ⟨hsame, hpending, handed, heffects, hframes⟩ :=
    (RpcCtx.Pending.nil h).feed List.not_mem_nil (Lines.join newline (fs.map text))
  rw [List.nil_append, framesOf_join] at hframes
  have hlines : ∀ l ∈ fs.map text, newline ∉ l := by
    intro l hl
    obtain ⟨f, -, rfl⟩ := List.mem_map.mp hl
    exact f.oneLine
  have hcut := Lines.cut_join hlines []
  rw [List.append_nil] at hcut
  rw [List.nil_append, hcut] at hpending
  refine ⟨hsame, hpending.len, ?_⟩
  rw [heffects]
  clear heffects hpending hcut hlines hsame
  induction fs generalizing handed with
  | nil =>
      rw [List.map_eq_nil_iff.mp hframes]
      rfl
  | cons f fs ih =>
      cases handed with
      | nil => cases hframes
      | cons m handed =>
          rw [List.map_cons, List.map_cons, List.cons.injEq] at hframes
          rw [List.flatMap_cons, List.flatMap_cons, f.process_eq ctx hframes.1, ih handed hframes.2]

/-- A response is handed to the callback of the context that receives it. -/
theorem feed_response {f : RpcFrame} (h : f.value.dispatch = .response) :
    (ctx.reset.feed (f.text ++ [newline])).2 = if ctx.responseCb then [.response f.text] else [] := by
  have hfeed := (feed_join ctx.reset rfl [f]).2.2
  simp only [List.map_cons, List.map_nil, Lines.join, List.flatMap_singleton, effects, h] at hfeed
  exact hfeed

/-- **A session**: objects and arrays on lines of their own, sent to a context with an empty buffer,
are processed in turn, each by its own members. -/
theorem session_effects (fs : List RpcFrame) :
    (ctx.reset.feed (Lines.join newline (fs.map text))).2 = fs.flatMap fun f => f.effects ctx :=
  (feed_join ctx.reset rfl fs).2.2

end RpcFrame

end OtiKiosk
