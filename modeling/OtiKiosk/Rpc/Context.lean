import OtiKiosk.Printer.Formats

/-!
JSON-RPC in `mjson.c`. A context is fed byte by byte; a line is a frame, which is a
response, a request for a method, or neither. What a context does to the outside is
the list of the pieces it hands to the sender and of the callbacks it calls.

A method is known by its name and by what it prints to `r->out` for a request; its
user data is part of it.
-/

namespace OtiKiosk

open Ascii Json

abbrev rpcInBufSize : ℕ := 256

/-- `struct jsonrpc_request`: the texts that `params` and `id` point to. -/
structure RpcRequest where
  params : Bytes
  id : Bytes
  deriving DecidableEq

structure RpcMethod where
  method : Bytes
  cb : RpcRequest → List Bytes

/-- `struct jsonrpc_ctx`; the methods in the order of the list, and whether there is a
`response_cb`. -/
structure RpcCtx where
  methods : List RpcMethod
  responseCb : Bool
  input : Bytes
  inLen : ℕ
  input_length : input.length = rpcInBufSize
  inLen_le : inLen ≤ rpcInBufSize

inductive RpcEffect
  /-- A call of the sender. -/
  | sent (piece : Bytes)
  /-- A call of `response_cb`. -/
  | response (frame : Bytes)
  /-- The callback of a method is called. -/
  | called (method : Bytes) (request : RpcRequest)
  deriving DecidableEq

/-! ### Replies -/

def jsonrpcCall (fmt : Bytes) (args : List PrintArg) : Option (List Bytes) :=
  (mjsonVprintf fmt args).map (· ++ [[newline]])

def jsonrpcErrorNotFound : BitVec 32 := BitVec.ofInt 32 (-32601)

abbrev Formatted := Bytes × List PrintArg

/-- Three calls of `mjson_printf`, one after the other. -/
def mjsonPrintfAll (start body finish : Formatted) : Option (List Bytes) :=
  (mjsonVprintf start.1 start.2).bind fun a =>
    (mjsonVprintf body.1 body.2).bind fun b => (mjsonVprintf finish.1 finish.2).map fun c => a ++ b ++ c

/-- `jsonrpc_return_errorv`; without a format, the message is the empty string. -/
def jsonrpcReturnErrorv (r : RpcRequest) (code : BitVec 32) (message : Option Formatted) :
    Option (List Bytes) :=
  if r.id = [] then some []
  else
    mjsonPrintfAll
      (ascii "\x7b\"id\":%.*s,\"error\":\x7b\"code\":%d,\"message\":", [.mem r.id, .int code])
      (message.getD (ascii "%s", [.str ⟨ascii "\"\"", by decide⟩]))
      (ascii "\x7d\x7d\n", [])

/-- `jsonrpc_return_successv`; without a format, the result is `null`. -/
def jsonrpcReturnSuccessv (r : RpcRequest) (result : Option Formatted) : Option (List Bytes) :=
  if r.id = [] then some []
  else
    mjsonPrintfAll
      (ascii "\x7b\"id\":%.*s,\"result\":", [.mem r.id])
      (result.getD (ascii "%s", [.str ⟨ascii "null", by decide⟩]))
      (ascii "\x7d\n", [])

/-- `jsonrpc_print_methods`, which takes a name up to its first NUL. -/
def jsonrpcPrintMethods : List Bytes → List Bytes
  | [] => []
  | name :: names =>
      mjsonPrintStr (cString name) ++
        names.flatMap fun name => [comma] :: mjsonPrintStr (cString name)

def rpclist (names : List Bytes) (r : RpcRequest) : Option (List Bytes) :=
  jsonrpcReturnSuccessv r (some (ascii "[%M]", [.fn (jsonrpcPrintMethods names)]))

/-! ### Frames -/

/-- Where `*tokptr` and `*toklen` are set to by `mjson_find`, also when the text turns out not to
be JSON behind the value. -/
def mjsonFindRange (s : Bytes) (len : ℕ) (path : Bytes) : Option (ℕ × ℕ) :=
  let g := (mjson s len).2.foldl (mjsonGetCb s) (.start path)
  if path.headD nul ≠ dollar ∨ g.tok = .invalid then none else some (g.ptr, g.ptrLen)

/-- The text that is found, empty if there is none. -/
def mjsonFindText (s : Bytes) (len : ℕ) (path : Bytes) : Bytes :=
  match mjsonFindRange s len path with
  | some (ptr, n) => (s.drop ptr).take n
  | none => []

/-- What `jsonrpc_ctx_process` takes a frame for. -/
inductive Dispatch
  | response
  | invalid
  | request (method : Bytes) (r : RpcRequest)
  deriving DecidableEq

def jsonrpcDispatch (req : Bytes) (reqSz : ℕ) : Dispatch :=
  if ∃ range ∈ mjsonFindRange req reqSz (ascii "$.result"), 0 < range.2 then .response
  else
    match mjsonGetString req reqSz (ascii "$.method") 50 with
    | (method, some (n + 1)) =>
        .request (method.take (n + 1))
          ⟨mjsonFindText req reqSz (ascii "$.params"), mjsonFindText req reqSz (ascii "$.id")⟩
    | _ => .invalid

def invalidReply (frame : Bytes) : List Bytes :=
  (jsonrpcCall (ascii "\x7b\"error\":\x7b\"code\":-32700,\"message\":%.*Q\x7d\x7d")
    [.mem frame]).getD []

def notFoundMessage : CString := ⟨ascii "method not found", by decide⟩

def notFoundReply (r : RpcRequest) : List Bytes :=
  (jsonrpcReturnErrorv r jsonrpcErrorNotFound (some (ascii "%Q", [.str notFoundMessage]))).getD []

/-- `jsonrpc_ctx_process`, but for `in_len`, which its caller sets anyway. -/
def jsonrpcCtxProcess (ctx : RpcCtx) (req : Bytes) (reqSz : ℕ) : List RpcEffect :=
  match jsonrpcDispatch req reqSz with
  | .response => if ctx.responseCb then [.response (req.take reqSz)] else []
  | .invalid => (invalidReply (req.take reqSz)).map .sent
  | .request method r =>
      match ctx.methods.find? (·.method = method) with
      | some m => .called m.method r :: (m.cb r).map .sent
      | none => (notFoundReply r).map .sent

namespace RpcCtx

/-- `in_len = 0` -/
def reset (ctx : RpcCtx) : RpcCtx := { ctx with inLen := 0, inLen_le := Nat.zero_le _ }

def append (ctx : RpcCtx) (h : ctx.inLen < rpcInBufSize) (ch : UInt8) : RpcCtx :=
  { ctx with
    input := ctx.input.set ctx.inLen ch
    inLen := ctx.inLen + 1
    input_length := by rw [List.length_set, ctx.input_length]
    inLen_le := h }

/-- The test for overflow, before a byte is looked at. -/
def makeRoom (ctx : RpcCtx) : RpcCtx := if rpcInBufSize ≤ ctx.inLen then ctx.reset else ctx

theorem makeRoom_lt (ctx : RpcCtx) : ctx.makeRoom.inLen < rpcInBufSize := by
  rw [makeRoom]
  split_ifs with h
  · show 0 < rpcInBufSize
    decide
  · exact not_le.mp h

def processByte (ctx : RpcCtx) (ch : UInt8) : RpcCtx × List RpcEffect :=
  if ch = newline then
    (ctx.makeRoom.reset,
      if 1 < ctx.makeRoom.inLen then
        jsonrpcCtxProcess ctx.makeRoom ctx.makeRoom.input ctx.makeRoom.inLen
      else [])
  else (ctx.makeRoom.append ctx.makeRoom_lt ch, [])

def feed : RpcCtx → Bytes → RpcCtx × List RpcEffect
  | ctx, [] => (ctx, [])
  | ctx, ch :: stream =>
      let (ctx, effects) := ctx.processByte ch
      let (ctx, effects') := ctx.feed stream
      (ctx, effects ++ effects')

end RpcCtx

def rpcCtx (methods : List RpcMethod) (responseCb : Bool) : RpcCtx where
  methods := methods
  responseCb := responseCb
  input := List.replicate rpcInBufSize nul
  inLen := 0
  input_length := List.length_replicate
  inLen_le := Nat.zero_le _

end OtiKiosk
