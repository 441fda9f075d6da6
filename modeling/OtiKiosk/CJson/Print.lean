import OtiKiosk.Lib.Ascii
import OtiKiosk.Lib.Attempt

/-!
The printers of `cJSON.c`, which the demo prints its messages with. They write into a
buffer that is enlarged when it is too small; only where the next text begins is kept,
not where it ends, so that a printer that does not know leaves this to
`update_offset`, which looks for the terminator.

Where a printer would access memory outside of the buffer, it has no meaning.
-/

namespace OtiKiosk

open Ascii

/-! ### Items -/

/-- What a pointer to a `cJSON` stands for: the item, or the items from it on. -/
inductive CJsonPart
  | item | list

/-- `cJSON`, as far as it is printed: a number is given by the text that `print_number` makes of
it, and `next` is the rest of the list. -/
inductive CJson : CJsonPart → Type
  | null : CJson .item
  | false : CJson .item
  | true : CJson .item
  | number (text : CString) : CJson .item
  | raw (valuestring : Option CString) : CJson .item
  | string (valuestring : Option CString) : CJson .item
  | array (child : CJson .list) : CJson .item
  | object (child : CJson .list) : CJson .item
  /-- An item of another type. -/
  | invalid : CJson .item
  | nil : CJson .list
  | cons (name : Option CString) (item : CJson .item) (next : CJson .list) : CJson .list

/-! ### The buffer -/

/-- `INT_MAX`, the largest size that is supported. -/
abbrev maxSize : ℕ := 2147483647

/-- `printbuffer`, with the block that `buffer` points to, if any. -/
structure PrintBuffer where
  buffer : Option Bytes
  length : ℕ
  offset : ℕ
  depth : ℕ
  noalloc : Bool
  format : Bool

/-- `realloc`, for every size: nothing, or what stands in the new memory behind the old. No two
calls of `ensure` for a buffer ask for the same size. -/
abbrev Realloc := ℕ → Option (ℕ → UInt8)

/-- A block of the size, with as much of the old one as there is room for. -/
def resized (block : Bytes) (size : ℕ) (fresh : ℕ → UInt8) : Bytes :=
  block.take size ++ (List.range (size - block.length)).map fresh

namespace PrintBuffer

variable (realloc : Realloc)

/-- The second half of `ensure`: a buffer of `needed` bytes or more. -/
def enlarge (p : PrintBuffer) (block : Bytes) (needed : ℕ) : Bool × PrintBuffer :=
  if maxSize / 2 < needed ∧ maxSize < needed then (false, p)
  else
    let newsize := if maxSize / 2 < needed then maxSize else needed * 2
    match realloc newsize with
    | none => (false, { p with buffer := none, length := 0 })
    | some fresh => (true, { p with buffer := some (resized block newsize fresh), length := newsize })

/-- `ensure`: whether it returns a place, which is `offset`. -/
def ensure (p : PrintBuffer) (needed : ℕ) : Bool × PrintBuffer :=
  match p.buffer with
  | none => (false, p)
  | some block =>
      if 0 < p.length ∧ p.length ≤ p.offset then (false, p)
      else if maxSize < needed then (false, p)
      else if needed + (p.offset + 1) ≤ p.length then (true, p)
      else if p.noalloc then (false, p)
      else p.enlarge realloc block (needed + (p.offset + 1))

/-- Bytes stored from `offset + i` on. -/
def store (p : PrintBuffer) (i : ℕ) (text : Bytes) : Option PrintBuffer :=
  p.buffer.bind fun block =>
    if p.offset + i + text.length ≤ block.length then
      some { p with
        buffer := some (block.take (p.offset + i) ++ text ++
          block.drop (p.offset + i + text.length)) }
    else none

def updateOffset : Attempt PrintBuffer := fun p =>
  match p.buffer with
  | none => some (true, p)
  | some block =>
      if nul ∈ block.drop p.offset then
        some (true, { p with offset := p.offset + (cString (block.drop p.offset)).length })
      else none

/-- `ensure`, and if there is a place, the text is stored there and the offset moved. -/
def put (needed : ℕ) (text : Bytes) (advance : ℕ) : Attempt PrintBuffer := fun p =>
  match p.ensure realloc needed with
  | (false, p) => some (false, p)
  | (true, p) =>
      (p.store 0 text).map fun p => (true, { p with offset := p.offset + advance })

/-! ### Strings -/

/-- How much longer a byte gets by its escape. -/
def escapeCharacters (c : UInt8) : ℕ :=
  if c ∈ [quote, backslash, backspace, formFeed, newline, carriageReturn, tab] then 1
  else if c < 32 then 5
  else 0

def hexDigit (n : ℕ) : UInt8 := (ascii "0123456789abcdef").getD n nul

/-- What stands behind the backslash of an escape. -/
def escapeOf (c : UInt8) : Bytes :=
  if c = backslash then [backslash]
  else if c = quote then [quote]
  else if c = backspace then ascii "b"
  else if c = formFeed then ascii "f"
  else if c = newline then ascii "n"
  else if c = carriageReturn then ascii "r"
  else if c = tab then ascii "t"
  else ascii "u00" ++ [hexDigit (c.toNat / 16), hexDigit (c.toNat % 16)]

def escaped (c : UInt8) : Bytes :=
  if 31 < c ∧ c ≠ quote ∧ c ≠ backslash then [c] else backslash :: escapeOf c

def printStringPtr : Option CString → Attempt PrintBuffer
  | none => put realloc 3 [quote, quote, nul] 0
  | some input => fun p =>
      let escapes := (input.bytes.map escapeCharacters).sum
      let outputLength := input.bytes.length + escapes
      match p.ensure realloc (outputLength + 3) with
      | (false, p) => some (false, p)
      | (true, p) =>
          let body := if escapes = 0 then input.bytes else input.bytes.flatMap escaped
          ((p.store 0 (quote :: body)).bind fun p => p.store (outputLength + 1) [quote, nul]).map
            fun p => (true, p)

/-! ### Values -/

/-- `print_number`, which knows the length of what it printed. -/
def printNumber (text : CString) : Attempt PrintBuffer :=
  if 25 < text.bytes.length then Attempt.fail
  else put realloc (text.bytes.length + 1) (text.bytes ++ [nul]) text.bytes.length

def deeper (p : PrintBuffer) : PrintBuffer := { p with depth := p.depth + 1 }

def shallower (p : PrintBuffer) : PrintBuffer := { p with depth := p.depth - 1 }

/-- What is only printed in a formatted print. -/
def formatted (p : PrintBuffer) (text : Bytes) : Bytes := if p.format then text else []

/-- `print_array`, around the loop over the items. -/
def printArray (items : Attempt PrintBuffer) : Attempt PrintBuffer :=
  ((((put realloc 1 [lbracket] 1).andDo deeper).andThen items).andThen
    (put realloc 2 [rbracket, nul] 0)).andDo shallower

/-- One turn of the loop of `print_array`. -/
def printElement (value : Attempt PrintBuffer) (last : Bool) : Attempt PrintBuffer :=
  (value.andThen updateOffset).andThen
    (if last then Attempt.succeed
    else Attempt.reading fun p =>
      put realloc ((comma :: p.formatted [space]).length + 1) (comma :: p.formatted [space] ++ [nul])
        (comma :: p.formatted [space]).length)

/-- `print_object`, around the loop over the members. -/
def printObject (members : Attempt PrintBuffer) : Attempt PrintBuffer :=
  ((((Attempt.reading fun p =>
      put realloc ((lbrace :: p.formatted [newline]).length + 1) (lbrace :: p.formatted [newline])
        (lbrace :: p.formatted [newline]).length).andDo deeper).andThen members).andThen
    (Attempt.reading fun p =>
      put realloc (if p.format then p.depth + 1 else 2)
        (p.formatted (List.replicate (p.depth - 1) tab) ++ [rbrace, nul]) 0)).andDo shallower

def printIndent : Attempt PrintBuffer := Attempt.reading fun p =>
  if p.format then put realloc p.depth (List.replicate p.depth tab) p.depth else Attempt.succeed

def printColon : Attempt PrintBuffer := Attempt.reading fun p =>
  put realloc (colon :: p.formatted [tab]).length (colon :: p.formatted [tab])
    (colon :: p.formatted [tab]).length

def printComma (last : Bool) : Attempt PrintBuffer := Attempt.reading fun p =>
  let text := (if last then [] else [comma]) ++ p.formatted [newline]
  put realloc (text.length + 1) (text ++ [nul]) text.length

/-- One turn of the loop of `print_object`. -/
def printMember (name : Option CString) (value : Attempt PrintBuffer) (last : Bool) :
    Attempt PrintBuffer :=
  ((((printIndent realloc).andThen ((printStringPtr realloc name).andThen updateOffset)).andThen
    (printColon realloc)).andThen (value.andThen updateOffset)).andThen (printComma realloc last)

end PrintBuffer

def CJson.isNil : CJson .list → Bool
  | .nil => Bool.true
  | .cons _ _ _ => Bool.false

open PrintBuffer in
/-- `print_value` for an item, and the loops of `print_array` and `print_object` for a list. -/
def CJson.print (realloc : Realloc) {part : CJsonPart} :
    CJson part → (inObject : Bool) → Attempt PrintBuffer
  | .null, _ => put realloc 5 (ascii "null" ++ [nul]) 0
  | .false, _ => put realloc 6 (ascii "false" ++ [nul]) 0
  | .true, _ => put realloc 5 (ascii "true" ++ [nul]) 0
  | .number text, _ => printNumber realloc text
  | .raw none, _ => Attempt.fail
  | .raw (some s), _ => put realloc (s.bytes.length + 1) (s.bytes ++ [nul]) 0
  | .string s, _ => printStringPtr realloc s
  | .array child, _ => printArray realloc (child.print realloc Bool.false)
  | .object child, _ => printObject realloc (child.print realloc Bool.true)
  | .invalid, _ => Attempt.fail
  | .nil, _ => Attempt.succeed
  | .cons name item next, Bool.true =>
      (printMember realloc name (item.print realloc Bool.false) next.isNil).andThen
        (next.print realloc Bool.true)
  | .cons _ item next, Bool.false =>
      (printElement realloc (item.print realloc Bool.false) next.isNil).andThen
        (next.print realloc Bool.false)

def printValue (realloc : Realloc) (item : CJson .item) : Attempt PrintBuffer :=
  item.print realloc Bool.false

/-! ### Printing into a block -/

/-- The allocations of one print: the first block, its enlargements, and the last `realloc`. -/
structure Allocator where
  allocate : ℕ → Option (ℕ → UInt8)
  enlarge : Realloc
  shrink : Realloc

/-- `print`: the block that is returned, or NULL. -/
def cjsonPrint (A : Allocator) (format : Bool) (item : CJson .item) : Option (Option Bytes) :=
  match A.allocate 256 with
  | none => some none
  | some fresh =>
      match ((printValue A.enlarge item).andThen PrintBuffer.updateOffset)
        { buffer := some (resized [] 256 fresh)
          length := 256
          offset := 0
          depth := 0
          noalloc := Bool.false
          format := format } with
      | none => none
      | some (Bool.false, _) => some none
      | some (Bool.true, p) =>
          some (p.buffer.bind fun block =>
            (A.shrink (p.offset + 1)).map fun fresh => resized block (p.offset + 1) fresh)

def cJsonPrintUnformatted (A : Allocator) (item : CJson .item) : Option (Option Bytes) :=
  cjsonPrint A Bool.false item

def cJsonPrintBuffered (A : Allocator) (item : CJson .item) (prebuffer : BitVec 32) (fmt : Bool) :
    Option (Option Bytes) :=
  if prebuffer.toInt < 0 then some none
  else
    match A.allocate prebuffer.toNat with
    | none => some none
    | some fresh =>
        match printValue A.enlarge item
          { buffer := some (resized [] prebuffer.toNat fresh)
            length := prebuffer.toNat
            offset := 0
            depth := 0
            noalloc := Bool.false
            format := fmt } with
        | none => none
        | some (Bool.false, _) => some none
        | some (Bool.true, p) => some p.buffer

/-- `cJSON_PrintPreallocated` with a buffer that is as long as it says: the result, and the
buffer. -/
def cJsonPrintPreallocated (A : Allocator) (item : CJson .item) (length : BitVec 32)
    (buffer : Bytes) (format : Bool) : Option (Bool × Option Bytes) :=
  if length.toInt < 0 then some (Bool.false, some buffer)
  else
    (printValue A.enlarge item
      { buffer := some buffer
        length := length.toNat
        offset := 0
        depth := 0
        noalloc := Bool.true
        format := format }).map fun r => (r.1, r.2.buffer)

end OtiKiosk
