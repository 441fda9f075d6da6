import OtiKiosk.Rpc.Dispatch

/-!
The replies of a context as texts: each is one object on a line of its own, in which
the id of the request stands as it stood there. An error reply has neither a result
nor a method, so the context that receives it takes it for no response, and answers it
with an error reply of its own.
-/

namespace OtiKiosk

open Ascii Json

/-! ### Texts -/

theorem Prints.bytes (s : Bytes) : Prints [percent, dot, asterisk, letterS] [.mem s] s := by
  have hprint := Prints.conversion [dot, asterisk, letterS] (.mem s)
    [s] fun fmt args => by simp +decide [OtiKiosk.conversion]
  rw [List.flatten_singleton] at hprint
  exact hprint

theorem Prints.escaped (s : Bytes) :
    Prints [percent, dot, asterisk, letterQ] [.mem s] (quoted (escapeText s)) := by
  have hprint := Prints.conversion [dot, asterisk, letterQ] (.mem s)
    (mjsonPrintStr s) fun fmt args => by simp +decide [OtiKiosk.conversion]
  rw [mjsonPrintStr_flatten] at hprint
  exact hprint

def replyText (id name text : Bytes) : Bytes :=
  lbrace :: (quoted (ascii "id") ++ colon :: id ++ joinedMembers [(name, text)]) ++ [rbrace]

theorem replyText_eq (w v : Value) (name : Bytes) :
    replyText w.text name v.text = (object [(ascii "id", w), (name, v)]).text := by
  rw [object_text]
  rfl

/-- The beginning of a reply is printed as it is. -/
theorem prints_start {fmt : Bytes} (name : Bytes) (hname : percent ∉ name)
    (hfmt : fmt = (lbrace :: quoted (ascii "id") ++ [colon]) ++
      ([percent, dot, asterisk, letterS] ++ (comma :: quoted name ++ [colon]))) (id : Bytes) :
    Prints fmt [.mem id] ((lbrace :: quoted (ascii "id") ++ [colon]) ++
      (id ++ (comma :: quoted name ++ [colon]))) := by
  have hid : Prints (lbrace :: quoted (ascii "id") ++ [colon]) []
      (lbrace :: quoted (ascii "id") ++ [colon]) := .literal (by decide)
  have hmember : Prints (comma :: quoted name ++ [colon]) [] (comma :: quoted name ++ [colon]) := by
    refine .literal ?_
    simp only [quoted, List.mem_append, List.mem_cons, List.not_mem_nil, or_false, not_or]
    exact ⟨⟨by decide, ⟨by decide, hname⟩, by decide⟩, by decide⟩
  rw [hfmt]
  exact hid.append ((Prints.bytes id).append hmember)

theorem mjsonPrintfAll_text (start body finish : Formatted) {text text' text'' : Bytes}
    (h : Prints start.1 start.2 text)
    (h' : ∃ pieces, mjsonVprintf body.1 body.2 = some pieces ∧ pieces.flatten = text')
    (h'' : Prints finish.1 finish.2 text'') :
    ∃ pieces, mjsonPrintfAll start body finish = some pieces ∧
      pieces.flatten = text ++ text' ++ text'' := by
  obtain ⟨a, ha, rfl⟩ := h.vprintf
  obtain ⟨b, hb, rfl⟩ := h'
  obtain ⟨c, hc, rfl⟩ := h''.vprintf
  refine ⟨a ++ b ++ c, ?_, ?_⟩
  · rw [mjsonPrintfAll, ha, hb, hc]
    rfl
  · rw [List.flatten_append, List.flatten_append]

/-- **A success** is one object on a line, with the id of the request and the text that the format
prints. -/
theorem returnSuccess_of {r : RpcRequest} (hid : r.id ≠ []) {fmt : Bytes} {args : List PrintArg}
    {text : Bytes}
    (hprints : ∃ pieces, mjsonVprintf fmt args = some pieces ∧ pieces.flatten = text) :
    ∃ pieces, jsonrpcReturnSuccessv r (some (fmt, args)) = some pieces ∧
      pieces.flatten = replyText r.id (ascii "result") text ++ [newline] := by
  have hfmt : ascii "\x7b\"id\":%.*s,\"result\":" = (lbrace :: quoted (ascii "id") ++ [colon]) ++
      ([percent, dot, asterisk, letterS] ++ (comma :: quoted (ascii "result") ++ [colon])) := by
    decide
  have hline : ascii "\x7d\n" = [rbrace, newline] := by decide
  have hfinish : Prints (ascii "\x7d\n") [] [rbrace, newline] := by
    rw [hline]
    exact .literal (by decide)
  obtain ⟨pieces, hpieces, htext⟩ :=
    mjsonPrintfAll_text (_, _) (_, _) (_, _) (prints_start (ascii "result") (by decide) hfmt r.id)
      hprints hfinish
  refine ⟨pieces, ?_, ?_⟩
  · rw [jsonrpcReturnSuccessv, if_neg hid]
    exact hpieces
  · rw [htext]
    simp only [replyText, joinedMembers, List.flatMap_singleton, List.cons_append,
      List.append_assoc, List.nil_append]

theorem returnSuccess_text {r : RpcRequest} (hid : r.id ≠ []) (f : ValueFormat) :
    ∃ pieces, jsonrpcReturnSuccessv r (some (f.fmt, f.args)) = some pieces ∧
      pieces.flatten = replyText r.id (ascii "result") f.value.text ++ [newline] :=
  returnSuccess_of hid f.prints.vprintf

def errorValue (code : ℤ) (message : Value) : Value :=
  object [(ascii "code", .number (intText code)), (ascii "message", message)]

/-- **An error** is one object on a line, with the id of the request, the code and the message. -/
theorem returnError_text {r : RpcRequest} (hid : r.id ≠ []) (code : BitVec 32) (f : ValueFormat) :
    ∃ pieces, jsonrpcReturnErrorv r code (some (f.fmt, f.args)) = some pieces ∧
      pieces.flatten =
        replyText r.id (ascii "error") (errorValue code.toInt f.value).text ++ [newline] := by
  have hfmt : ascii "\x7b\"id\":%.*s,\"error\":\x7b\"code\":%d,\"message\":" =
      ((lbrace :: quoted (ascii "id") ++ [colon]) ++
        ([percent, dot, asterisk, letterS] ++ (comma :: quoted (ascii "error") ++ [colon]))) ++
      ((lbrace :: quoted (ascii "code") ++ [colon]) ++
        ([percent, letterD] ++ (comma :: quoted (ascii "message") ++ [colon]))) := by
    decide
  have hline : ascii "\x7d\x7d\n" = [rbrace, rbrace, newline] := by decide
  have hfinish : Prints (ascii "\x7d\x7d\n") [] [rbrace, rbrace, newline] := by
    rw [hline]
    exact .literal (by decide)
  have hcode : Prints (lbrace :: quoted (ascii "code") ++ [colon]) []
      (lbrace :: quoted (ascii "code") ++ [colon]) := .literal (by decide)
  have hmessage : Prints (comma :: quoted (ascii "message") ++ [colon]) []
      (comma :: quoted (ascii "message") ++ [colon]) := .literal (by decide)
  have hint : Prints [percent, letterD] [.int code] (intText code.toInt) :=
    Printed.prints (p := .int code true) trivial
  have hstart := (prints_start (ascii "error") (by decide) rfl r.id).append
    (hcode.append (hint.append hmessage))
  rw [← hfmt] at hstart
  obtain ⟨pieces, hpieces, htext⟩ := mjsonPrintfAll_text (_, _) (_, _) (_, _) hstart f.prints.vprintf
    hfinish
  refine ⟨pieces, ?_, ?_⟩
  · rw [jsonrpcReturnErrorv, if_neg hid]
    exact hpieces
  · rw [htext, errorValue, object_text]
    simp only [replyText, joinedMembers, List.flatMap_singleton, List.map_cons, List.map_nil,
      Phrase.text, List.cons_append, List.append_assoc, List.nil_append]

/-! ### Error replies that are received -/

def parseError (frame : Bytes) : Value :=
  object [(ascii "error", errorValue (-32700) (.string (escapeText frame)))]

theorem invalidReply_text (frame : Bytes) :
    (invalidReply frame).flatten = (parseError frame).text ++ [newline] := by
  have hfmt : ascii "\x7b\"error\":\x7b\"code\":-32700,\"message\":%.*Q\x7d\x7d" =
      ascii "\x7b\"error\":\x7b\"code\":-32700,\"message\":" ++
        ([percent, dot, asterisk, letterQ] ++ [rbrace, rbrace]) := by
    decide
  have hstart : Prints (ascii "\x7b\"error\":\x7b\"code\":-32700,\"message\":") []
      (ascii "\x7b\"error\":\x7b\"code\":-32700,\"message\":") := .literal (by decide)
  have hfinish : Prints [rbrace, rbrace] [] [rbrace, rbrace] := .literal (by decide)
  obtain ⟨pieces, hpieces, htext⟩ := (hstart.append ((Prints.escaped frame).append hfinish)).vprintf
  have hcall : invalidReply frame = pieces ++ [[newline]] := by
    rw [invalidReply, jsonrpcCall, hfmt]
    exact congrArg (fun p => (p.map (· ++ [[newline]])).getD []) hpieces
  have hobject : (parseError frame).text =
      ascii "\x7b\"error\":\x7b\"code\":-32700,\"message\":" ++
        (quoted (escapeText frame) ++ [rbrace, rbrace]) := by
    have hcode : intText (-32700) = ascii "-32700" := by decide
    rw [parseError, errorValue, object_text, object_text, hcode]
    simp only [Phrase.text, joinedMembers, List.map_cons, List.map_nil, List.flatMap_singleton,
      List.flatMap_nil, List.append_nil]
    have hpre : ascii "\x7b\"error\":\x7b\"code\":-32700,\"message\":" =
        lbrace :: (quoted (ascii "error") ++ colon :: lbrace :: (quoted (ascii "code") ++ colon ::
          (ascii "-32700" ++ comma :: (quoted (ascii "message") ++ [colon])))) := by
      decide
    rw [hpre]
    simp only [List.cons_append, List.append_assoc, List.nil_append]
  rw [hcall, List.flatten_append, List.flatten_singleton, htext, hobject]

/-- An object with neither a result nor a method is of no kind. -/
theorem object_dispatch {members : List (Bytes × Value)}
    (hresult : ascii "result" ∉ members.map Prod.fst)
    (hmethod : ascii "method" ∉ members.map Prod.fst) : (object members).dispatch = .invalid := by
  rw [Phrase.dispatch, object_get_none hresult, if_neg (by decide), Phrase.method?,
    object_get_none hmethod]
  rfl

theorem RpcFrame.effects_invalid {f : RpcFrame} (h : f.value.dispatch = .invalid) (ctx : RpcCtx) :
    f.effects ctx = (invalidReply f.text).map .sent := by
  rw [RpcFrame.effects, h]

/-- The id that a reply repeats is not empty. -/
theorem RpcFrame.id_ne_nil {f : RpcFrame} {w v : Value} {name : Bytes}
    (h : f.value = object [(ascii "id", w), (name, v)]) : w.text ≠ [] := by
  have hget : f.value.get (ascii "id") = some w := by
    rw [h, object_get]
    rfl
  exact List.ne_nil_of_length_pos (text_pos (wf_of_get f.wf hget))

def notFoundText : Printed := .text notFoundMessage

def notFoundFrame : RpcFrame where
  value := object [(ascii "id", .number (ascii "1")),
    (ascii "error", errorValue jsonrpcErrorNotFound.toInt notFoundText.value)]
  wf := by decide +kernel
  depth := by decide
  node := ⟨.curly, _, rfl⟩
  oneLine := by decide
  fits := by decide +kernel

end OtiKiosk
