import OtiKiosk.Lib.Lines
import OtiKiosk.Rpc.Context

/-!
Which frames a context makes of a stream of bytes. What the buffer holds after some
bytes of a line is computed from these bytes alone; the buffer starts afresh whenever
it is full, so that of a longer line only the end is processed, and a line of exactly
as many bytes as the buffer has is lost.
-/

namespace OtiKiosk

open Ascii Json

/-- What is processed of a line: the bytes since the buffer was last full. -/
def lastFrame (line : Bytes) : Bytes := line.drop (line.length - line.length % rpcInBufSize)

theorem lastFrame_length (line : Bytes) : (lastFrame line).length = line.length % rpcInBufSize := by
  have hle := Nat.mod_le line.length rpcInBufSize
  rw [lastFrame, List.length_drop]
  omega

theorem lastFrame_of_lt {line : Bytes} (h : line.length < rpcInBufSize) : lastFrame line = line := by
  rw [lastFrame, Nat.mod_eq_of_lt h, Nat.sub_self, List.drop_zero]

/-- The frames of a stream: the ends of its lines, but for those of less than two bytes. -/
def framesOf (stream : Bytes) : List Bytes :=
  ((Lines.cut newline stream).1.map lastFrame).filter fun frame => 1 < frame.length

namespace RpcCtx

/-- How many bytes of an unfinished line of `n` bytes are in the buffer. -/
def pendingLen : ℕ → ℕ
  | 0 => 0
  | n + 1 => n % rpcInBufSize + 1

/-- The buffer is full exactly when the line has filled it up. -/
theorem pendingLen_eq (n : ℕ) :
    pendingLen n = if rpcInBufSize ≤ pendingLen n then rpcInBufSize else n % rpcInBufSize := by
  have hsize : rpcInBufSize = 256 := rfl
  cases n with
  | zero => rfl
  | succ n =>
      rw [pendingLen, hsize]
      split_ifs <;> omega

theorem mod_of_full {n : ℕ} (h : rpcInBufSize ≤ pendingLen n) : n % rpcInBufSize = 0 := by
  have hsize : rpcInBufSize = 256 := rfl
  cases n with
  | zero => rfl
  | succ n =>
      rw [pendingLen, hsize] at h
      rw [hsize]
      omega

/-- The buffer after these bytes of a line. -/
structure Pending (ctx : RpcCtx) (line : Bytes) : Prop where
  len : ctx.inLen = pendingLen line.length
  held : ctx.input.take ctx.inLen = line.drop (line.length - ctx.inLen)

theorem Pending.nil {ctx : RpcCtx} (h : ctx.inLen = 0) : Pending ctx [] := by
  refine ⟨h, ?_⟩
  rw [h, List.take_zero]
  rfl

structure Same (ctx ctx' : RpcCtx) : Prop where
  methods : ctx'.methods = ctx.methods
  responseCb : ctx'.responseCb = ctx.responseCb

theorem Same.refl (ctx : RpcCtx) : Same ctx ctx := ⟨rfl, rfl⟩

theorem Same.trans {ctx ctx' ctx'' : RpcCtx} (h : Same ctx ctx') (h' : Same ctx' ctx'') :
    Same ctx ctx'' := ⟨h'.methods.trans h.methods, h'.responseCb.trans h.responseCb⟩

theorem Same.process_eq {ctx ctx' : RpcCtx} (h : Same ctx ctx') :
    jsonrpcCtxProcess ctx' = jsonrpcCtxProcess ctx := by
  funext req reqSz
  simp only [jsonrpcCtxProcess, h.methods, h.responseCb]

theorem makeRoom_same (ctx : RpcCtx) : Same ctx ctx.makeRoom := by
  rw [makeRoom]
  split_ifs
  · exact ⟨rfl, rfl⟩
  · exact .refl ctx

theorem processByte_same (ctx : RpcCtx) (ch : UInt8) : Same ctx (ctx.processByte ch).1 := by
  have hroom := ctx.makeRoom_same
  by_cases hch : ch = Ascii.newline
  · rw [processByte, if_pos hch]
    exact hroom.trans ⟨rfl, rfl⟩
  · rw [processByte, if_neg hch]
    exact hroom.trans ⟨rfl, rfl⟩

variable {ctx : RpcCtx} {line : Bytes}

/-- Before the next byte, the buffer holds what would be processed of the line. -/
theorem Pending.makeRoom (h : Pending ctx line) :
    ctx.makeRoom.inLen = line.length % rpcInBufSize ∧
      ctx.makeRoom.input.take ctx.makeRoom.inLen = lastFrame line := by
  obtain ⟨hlen, hheld⟩ := h
  rw [RpcCtx.makeRoom]
  rw [hlen] at hheld ⊢
  have hcases := pendingLen_eq line.length
  split_ifs with hfull
  · have hmod := mod_of_full hfull
    refine ⟨hmod.symm, ?_⟩
    rw [lastFrame, hmod, Nat.sub_zero, List.drop_length]
    exact List.take_zero
  · rw [if_neg hfull] at hcases
    exact ⟨hlen.trans hcases, by rw [hlen, hheld, lastFrame, hcases]⟩

/-- A byte inside of a line. -/
theorem Pending.append (h : Pending ctx line) {ch : UInt8} (hch : ch ≠ newline) :
    Pending (ctx.processByte ch).1 (line ++ [ch]) ∧ (ctx.processByte ch).2 = [] := by
  obtain ⟨hlen, hheld⟩ := h.makeRoom
  have hlt := ctx.makeRoom_lt
  have hle := Nat.mod_le line.length rpcInBufSize
  rw [processByte, if_neg hch]
  refine ⟨⟨?_, ?_⟩, rfl⟩
  · show ctx.makeRoom.inLen + 1 = _
    rw [List.length_append, List.length_singleton, pendingLen, hlen]
  · show (ctx.makeRoom.input.set ctx.makeRoom.inLen ch).take (ctx.makeRoom.inLen + 1) =
      (line ++ [ch]).drop (_ - (ctx.makeRoom.inLen + 1))
    have hsize := ctx.makeRoom.input_length
    have hset : (ctx.makeRoom.input.set ctx.makeRoom.inLen ch).take (ctx.makeRoom.inLen + 1) =
        ctx.makeRoom.input.take ctx.makeRoom.inLen ++ [ch] := by
      rw [List.take_add_one, List.getElem?_set_self (by omega), List.take_set_of_le le_rfl]
      rfl
    rw [hset, hheld, hlen, List.length_append, List.length_singleton, Nat.add_sub_add_right,
      List.drop_append_of_le_length (Nat.sub_le _ _), lastFrame]

/-- The end of a line. -/
theorem Pending.newline (h : Pending ctx line) :
    Pending (ctx.processByte newline).1 [] ∧
      ∃ handed : List (Bytes × ℕ),
        (ctx.processByte newline).2 = handed.flatMap (fun m => jsonrpcCtxProcess ctx m.1 m.2) ∧
        handed.map (fun m => m.1.take m.2) =
          [lastFrame line].filter fun frame => 1 < frame.length := by
  obtain ⟨hlen, hheld⟩ := h.makeRoom
  rw [processByte, if_pos rfl]
  refine ⟨.nil rfl, ?_⟩
  have hcount : (lastFrame line).length = ctx.makeRoom.inLen := by
    rw [lastFrame_length, hlen]
  by_cases hlong : 1 < ctx.makeRoom.inLen
  · refine ⟨[(ctx.makeRoom.input, ctx.makeRoom.inLen)], ?_, ?_⟩
    · rw [if_pos hlong, List.flatMap_singleton, ctx.makeRoom_same.process_eq]
    · rw [List.filter_cons_of_pos (by rw [hcount]; exact decide_eq_true hlong), List.map_singleton,
        hheld]
      rfl
  · refine ⟨[], ?_, ?_⟩
    · rw [if_neg hlong]
      rfl
    · rw [List.filter_cons_of_neg (by rw [hcount]; simpa using hlong)]
      rfl

/-- From a stream that arrives behind the bytes of a line, `jsonrpc_ctx_process` is
called for the frames of the stream, one after the other, and for nothing else. -/
theorem Pending.feed (h : Pending ctx line) (hline : Ascii.newline ∉ line) (stream : Bytes) :
    Same ctx (ctx.feed stream).1 ∧
      Pending (ctx.feed stream).1 (Lines.cut Ascii.newline (line ++ stream)).2 ∧
      ∃ handed : List (Bytes × ℕ),
        (ctx.feed stream).2 = handed.flatMap (fun m => jsonrpcCtxProcess ctx m.1 m.2) ∧
        handed.map (fun m => m.1.take m.2) = framesOf (line ++ stream) := by
  induction stream generalizing ctx line with
  | nil =>
      rw [List.append_nil, framesOf, Lines.cut_open hline]
      exact ⟨.refl ctx, h, [], rfl, rfl⟩
  | cons ch stream ih =>
      have hsame := ctx.processByte_same ch
      by_cases hch : ch = Ascii.newline
      · subst hch
        obtain ⟨hnext, handed, heffects, hframes⟩ := h.newline
        obtain ⟨hsame', hrest, handed', heffects', hframes'⟩ := ih hnext List.not_mem_nil
        rw [List.nil_append] at hrest hframes'
        refine ⟨hsame.trans hsame', ?_, handed ++ handed', ?_, ?_⟩
        · rw [Lines.cut_line hline]
          exact hrest
        · rw [List.flatMap_append, ← heffects, ← hsame.process_eq, ← heffects']
          rfl
        · rw [List.map_append, hframes, hframes', framesOf, framesOf, Lines.cut_line hline,
            List.map_cons]
          exact (List.filter_append [lastFrame line] _).symm
      · obtain ⟨hnext, hnone⟩ := h.append hch
        have hline' : Ascii.newline ∉ line ++ [ch] := by
          rw [List.mem_append, not_or, List.mem_singleton]
          exact ⟨hline, Ne.symm hch⟩
        obtain ⟨hsame', hrest, handed, heffects, hframes⟩ := ih hnext hline'
        rw [List.append_assoc, List.singleton_append] at hrest hframes
        refine ⟨hsame.trans hsame', hrest, handed, ?_, hframes⟩
        show (ctx.processByte ch).2 ++ ((ctx.processByte ch).1.feed stream).2 = _
        rw [hnone, List.nil_append, heffects, hsame.process_eq]

/-- **Framing**: from a cleared buffer on, `jsonrpc_ctx_process` is called for the frames of the stream: for every
line what was read of it since the buffer was last full, unless that is less than two bytes. -/
theorem stream_framed (ctx : RpcCtx) (stream : Bytes) :
    ∃ handed : List (Bytes × ℕ),
      (ctx.reset.feed stream).2 = handed.flatMap (fun m => jsonrpcCtxProcess ctx m.1 m.2) ∧
      handed.map (fun m => m.1.take m.2) = framesOf stream := by
  have hreset : Same ctx ctx.reset := ⟨rfl, rfl⟩
  obtain ⟨-, -, handed, heffects, hframes⟩ :=
    (Pending.nil (rfl : ctx.reset.inLen = 0)).feed List.not_mem_nil stream
  rw [hreset.process_eq] at heffects
  exact ⟨handed, heffects, hframes⟩

end RpcCtx

end OtiKiosk
