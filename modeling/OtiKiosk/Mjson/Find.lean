import OtiKiosk.Mjson.Tokenizer

/-!
Lookup of a path in a text, and the readers built on it. `mjson_get_cb` follows
the calls of the tokenizer with a position in the path and two depths; the
position moves on when a key matches and never moves back.
-/

namespace OtiKiosk

open Ascii

/-- `struct msjon_get_data`. `obj` is the offset of the value being passed, when
it is an array or an object; `ptr` and `ptrLen` are what `*tokptr` and `*toklen`
are set to. -/
structure GetData where
  path : Bytes
  pos : ℕ
  d1 : ℤ
  d2 : ℤ
  i1 : ℤ
  i2 : ℤ
  obj : Option ℕ
  tok : Tok
  ptr : ℕ
  ptrLen : ℕ
  deriving DecidableEq

/-- `data->path[data->pos]`. -/
def GetData.cur (g : GetData) : UInt8 := g.path.getD g.pos nul

def mjsonPlen (s : Bytes) : ℕ := (s.takeWhile fun c => c != nul && c != dot && c != lbracket).length

/-- `!data->path[data->pos] && data->d1 == data->d2`: the value that starts here
is the one looked for. -/
def GetData.AtTarget (g : GetData) : Prop := g.cur = nul ∧ g.d1 = g.d2

instance (g : GetData) : Decidable g.AtTarget := inferInstanceAs (Decidable (_ ∧ _))

/-- The key at `off` continues the path. -/
def GetData.KeyMatches (g : GetData) (s : Bytes) (off len : ℕ) : Prop :=
  g.d1 = g.d2 + 1 ∧ g.cur = dot ∧ s.getD off nul = quote ∧ s.getD (off + len - 1) nul = quote ∧
    mjsonPlen (g.path.drop (g.pos + 1)) + 2 = len ∧
    (s.drop (off + 1)).take (len - 2) = (g.path.drop (g.pos + 1)).take (len - 2)

instance (g : GetData) (s : Bytes) (off len : ℕ) : Decidable (g.KeyMatches s off len) :=
  inferInstanceAs (Decidable (_ ∧ _))

def mjsonGetCb (s : Bytes) (g : GetData) (e : Event) : GetData :=
  if g.tok ≠ .invalid then g
  else match e.tok with
  | .object =>
      { g with obj := if g.AtTarget then some e.off else g.obj, d1 := g.d1 + 1 }
  | .array =>
      let g :=
        if g.d1 = g.d2 ∧ g.cur = lbracket then
          let i2 := (strtod (g.path.drop (g.pos + 1))).1.toInt
          if i2 = 0 then { g with i1 := 0, i2 := i2, d2 := g.d2 + 1, pos := g.pos + 3 }
          else { g with i1 := 0, i2 := i2 }
        else g
      { g with obj := if g.AtTarget then some e.off else g.obj, d1 := g.d1 + 1 }
  | .comma =>
      if g.d1 = g.d2 + 1 then
        if g.i1 + 1 = g.i2 then
          { g with
            i1 := g.i1 + 1
            pos := g.pos + ((g.path.drop g.pos).takeWhile (· != rbracket)).length + 1
            d2 := g.d2 + 1 }
        else { g with i1 := g.i1 + 1 }
      else g
  | .key =>
      if g.KeyMatches s e.off e.len then { g with d2 := g.d2 + 1, pos := g.pos + (e.len - 1) }
      else g
  | .closeObject | .closeArray =>
      let g := { g with d1 := g.d1 - 1 }
      match g.obj with
      | some start =>
          if g.AtTarget then
            { g with
              tok := if e.tok = .closeObject then .object else .array
              ptr := start
              ptrLen := e.off - start + 1 }
          else g
      | none => g
  | .string | .number | .true | .false | .null =>
      if g.AtTarget then { g with tok := e.tok, ptr := e.off, ptrLen := e.len } else g
  | .colon | .invalid => g

/-- What `mjson_find` finds: the token, and where its text lies. -/
structure Found where
  tok : Tok
  off : ℕ
  len : ℕ
  deriving DecidableEq

def Found.none : Found := ⟨.invalid, 0, 0⟩

def GetData.start (path : Bytes) : GetData where
  path := path
  pos := 1
  d1 := 0
  d2 := 0
  i1 := 0
  i2 := 0
  obj := Option.none
  tok := .invalid
  ptr := 0
  ptrLen := 0

def mjsonFind (s : Bytes) (len : ℕ) (path : Bytes) : Found :=
  if path.headD nul ≠ dollar then .none
  else
    let (ret, events) := mjson s len
    if ret < 0 then .none
    else
      let g := events.foldl (mjsonGetCb s) (.start path)
      ⟨g.tok, g.ptr, g.ptrLen⟩

def mjsonGetNumber (s : Bytes) (len : ℕ) (path : Bytes) : Option Double :=
  let f := mjsonFind s len path
  if f.tok = .number then some (strtod (s.drop f.off)).1 else none

def mjsonGetBool (s : Bytes) (len : ℕ) (path : Bytes) : Option Bool :=
  match (mjsonFind s len path).tok with
  | .true => some true
  | .false => some false
  | _ => none

/-- The loop of `mjson_unescape` with room for `n` more bytes: the bytes written,
and whether the text was well formed and there was room left for a terminator. -/
def mjsonUnescapeLoop : Bytes → ℕ → Bytes × Bool
  | [], n => ([], 0 < n)
  | _ :: _, 0 => ([], false)
  | [c], n + 1 => ([c], 0 < n)
  | c :: c' :: s, n + 1 =>
      if c = backslash then
        match mjsonEsc c' with
        | none => ([], false)
        | some b =>
            let (w, ok) := mjsonUnescapeLoop s n
            (b :: w, ok)
      else
        let (w, ok) := mjsonUnescapeLoop (c' :: s) n
        (c :: w, ok)

/-- `mjson_unescape` into a buffer of `n` bytes: what it writes from the start of
the buffer on, the terminator included, and the length it returns; `none` is
`-1`. -/
def mjsonUnescape (s : Bytes) (n : ℕ) : Bytes × Option ℕ :=
  let (w, ok) := mjsonUnescapeLoop s n
  if ok then (w ++ [nul], some w.length) else (w, none)

def mjsonGetString (s : Bytes) (len : ℕ) (path : Bytes) (n : ℕ) : Bytes × Option ℕ :=
  let f := mjsonFind s len path
  if f.tok ≠ .string then ([], some 0)
  else mjsonUnescape ((s.drop (f.off + 1)).take (f.len - 2)) n

end OtiKiosk
