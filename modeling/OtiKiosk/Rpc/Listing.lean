import OtiKiosk.Client.Spelling
import OtiKiosk.Lib.Members
import OtiKiosk.Printer.Outputs
import OtiKiosk.Rpc.Peers

/-!
The methods of a context. `jsonrpc_ctx_init` exports `RPC.List`, which names the methods
that the context has when it is called, itself among them: its reply lists exactly the
names that requests are dispatched for.
-/

namespace OtiKiosk

open Ascii Json

def rpcListName : Bytes := ascii "RPC.List"

/-- The methods behind `jsonrpc_ctx_init`, when these were exported, the last one first, each with a
node of its own. The node of `RPC.List` is static, so this is so in the context that was initialised
last. -/
def initMethods (exported : List RpcMethod) : List RpcMethod :=
  exported ++ [
    { method := rpcListName
      cb := fun r => (rpclist (exported.map RpcMethod.method ++ [rpcListName]) r).getD [] }]

/-- The names as an array of strings. -/
def listing (names : List Bytes) : Value :=
  .node .square (spread [] [] [] ((names.map fun name => .string (escapeText name)).map
    fun v => (.element, v)))

/-- The names, quoted, with commas between them. -/
theorem printMethods_flatten (names : List Bytes) :
    (jsonrpcPrintMethods names).flatten =
      elementsText [comma] ((names.map cString).map fun name => quoted (escapeText name)) := by
  cases names with
  | nil => rfl
  | cons name names =>
      rw [jsonrpcPrintMethods, List.flatten_append, mjsonPrintStr_flatten, List.map_cons,
        List.map_cons, elementsText]
      refine congrArg _ ?_
      induction names with
      | nil => rfl
      | cons next names ih =>
          simp only [List.flatMap_cons, List.flatten_append, List.flatten_cons,
            mjsonPrintStr_flatten, ih, List.map_cons, elementsText, List.isEmpty_cons, if_false,
            Bool.false_eq_true, List.cons_append, List.nil_append]

theorem listing_text (names : List Bytes) :
    (listing (names.map cString)).text =
      lbracket :: ((jsonrpcPrintMethods names).flatten ++ [rbracket]) := by
  have hspread := spread_elements [] ((names.map cString).map fun name => .string (escapeText name))
  rw [List.map_map (f := fun name => Phrase.string (escapeText name)) (g := Phrase.text)] at hspread
  rw [printMethods_flatten]
  exact congrArg (fun w => lbracket :: (w ++ [rbracket])) hspread

/-- `%M` uses none of the arguments up. -/
theorem listing_prints (names : List Bytes) :
    ∃ pieces, mjsonVprintf (ascii "[%M]") [.fn (jsonrpcPrintMethods names)] = some pieces ∧
      pieces.flatten = (listing (names.map cString)).text := by
  have hfmt : ascii "[%M]" = [lbracket, percent, letterM, rbracket] := by decide
  refine ⟨[lbracket] :: (jsonrpcPrintMethods names ++ [[rbracket]]), ?_, ?_⟩
  · rw [hfmt]
    rfl
  · rw [listing_text, List.flatten_cons, List.flatten_append, List.flatten_singleton]
    rfl

/-- The array means the names. -/
theorem listing_datum (names : List Bytes) :
    (listing names).datum = .array (names.map .string) := by
  show Datum.between .square (spread _ _ _ _).meaning = _
  rw [spread_meaning]
  simp only [Datum.between, List.map_map]
  refine congrArg Datum.array (List.map_congr_left fun name _ => ?_)
  exact congrArg Datum.string (unescape_of_decode (decode_escapeText name))

variable {exported : List RpcMethod}

theorem listing_wf {names : List Bytes} (h : ∀ name ∈ names, nul ∉ name) :
    (listing names).WF mjsonLexicon := by
  refine spread_wf isBlank_nil isBlank_nil isBlank_nil fun m hm => ?_
  simp only [List.map_map, List.mem_map] at hm
  obtain ⟨name, hname, rfl⟩ := hm
  exact ⟨trivial, (lexicon_escapeText_iff name).mpr (h name hname)⟩

theorem listing_depth (names : List Bytes) : (listing names).depth = 1 := by
  show (spread _ _ _ _).depth + 1 = 1
  rw [spread_depth]
  induction names with
  | nil => rfl
  | cons name names ih => exact ih

theorem notMem_elementsText {c : UInt8} {between : Bytes} {vs : List Bytes} (hc : c ∉ between)
    (hvs : ∀ v ∈ vs, c ∉ v) : c ∉ elementsText between vs := by
  induction vs with
  | nil => exact List.not_mem_nil
  | cons v vs ih =>
      obtain ⟨hv, hvs⟩ := List.forall_mem_cons.mp hvs
      rw [elementsText, List.mem_append, List.mem_append, not_or, not_or]
      refine ⟨hv, ?_, ih hvs⟩
      split_ifs
      · exact List.not_mem_nil
      · exact hc

/-- The array stands on one line. -/
theorem newline_notMem_listing (names : List Bytes) :
    newline ∉ (listing (names.map cString)).text := by
  have hnames : newline ∉ (jsonrpcPrintMethods names).flatten := by
    rw [printMethods_flatten]
    refine notMem_elementsText (by decide) fun v hv => ?_
    obtain ⟨name, -, rfl⟩ := List.mem_map.mp hv
    have hquote : newline ≠ quote := by decide
    simp [quoted, hquote, newline_notMem_escapeText]
  rw [listing_text, List.mem_cons, List.mem_append, List.mem_singleton, not_or, not_or]
  exact ⟨by decide, hnames, by decide⟩

/-- A method that was exported hides none but those before it. -/
theorem find_initMethods (hown : rpcListName ∉ exported.map RpcMethod.method) :
    (initMethods exported).find? (·.method = rpcListName) = some
      { method := rpcListName
        cb := fun r => (rpclist (exported.map RpcMethod.method ++ [rpcListName]) r).getD [] } := by
  rw [initMethods, List.find?_append, List.find?_eq_none.mpr]
  · simp
  · intro m hm hname
    exact hown (List.mem_map.mpr ⟨m, hm, by simpa using hname⟩)

theorem initMethods_names :
    (initMethods exported).map RpcMethod.method =
      exported.map RpcMethod.method ++ [rpcListName] := by
  rw [initMethods, List.map_append]
  rfl

/-- A request for `RPC.List`. -/
theorem listing_request {frame : RpcFrame} {w : Value}
    (hmethod : frame.value.method? = some rpcListName)
    (hresult : frame.value.get (ascii "result") = none)
    (hid : frame.value.get (ascii "id") = some w) :
    frame.value.dispatch =
      .request rpcListName ⟨frame.value.memberText (ascii "params"), w.text⟩ := by
  have hlength : 0 < rpcListName.length ∧ rpcListName.length < 50 := by decide
  have htext : frame.value.memberText (ascii "id") = w.text := by
    rw [Phrase.memberText, hid]
    rfl
  rw [Phrase.dispatch, hresult, if_neg (by decide), hmethod]
  simp only [hlength, and_self, if_true, htext]

def listReply (id : Value) (names : List Bytes) : Value :=
  object [(ascii "id", id), (ascii "result", listing (names.map cString))]

/-- The reply is an object on a line, nested no deeper than the request. -/
theorem listReply_frame (frame : RpcFrame) {w : Value}
    (hid : frame.value.get (ascii "id") = some w) (names : List Bytes) :
    (listReply w names).WF mjsonLexicon ∧ (listReply w names).depth ≤ mjsonMaxDepth ∧
      newline ∉ (listReply w names).text := by
  obtain ⟨hdepth, htext⟩ := part_of_get frame.wf hid
  refine ⟨object_wf ?_, object_depth (d := 19) ?_, ?_⟩
  · have hnames : ∀ name ∈ names.map cString, nul ∉ name := by
      intro name hname
      obtain ⟨m, -, rfl⟩ := List.mem_map.mp hname
      exact nul_notMem_cString m
    simp only [List.forall_mem_cons, List.not_mem_nil, false_imp_iff, implies_true, and_true]
    exact ⟨⟨lexicon_chars (IsPlain.chars (by decide)), wf_of_get frame.wf hid⟩,
      lexicon_chars (IsPlain.chars (by decide)), listing_wf hnames⟩
  · have hframe := frame.depth
    simp only [List.forall_mem_cons, List.not_mem_nil, false_imp_iff, implies_true, and_true,
      listing_depth]
    rw [mjsonMaxDepth] at hframe
    omega
  · rw [listReply, ← replyText_eq, replyText]
    have hw : newline ∉ w.text := fun h => frame.oneLine (htext.subset h)
    have hlisting := newline_notMem_listing names
    have hid : newline ∉ quoted (ascii "id") := by decide
    have hresult : newline ∉ quoted (ascii "result") := by decide
    have hmarks : newline ≠ lbrace ∧ newline ≠ colon ∧ newline ≠ comma ∧ newline ≠ rbrace := by
      decide
    simp [joinedMembers, hw, hlisting, hid, hresult, hmarks]

def listRequest : RpcFrame where
  value := object [(ascii "id", .number (ascii "7")), (ascii "method", .string rpcListName)]
  wf := by decide +kernel
  depth := by decide
  node := ⟨.curly, _, rfl⟩
  oneLine := by decide
  fits := by decide +kernel

end OtiKiosk
