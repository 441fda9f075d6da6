import OtiKiosk.Lib.Json
import OtiKiosk.Mjson.Strtod

/-!
The tokenizer of `mjson.c`. A text is a stretch of memory `s` together with the
length the caller gives; strings and literals are scanned within that length,
numbers by `strtod`, which does not know it. `mjson` calls back once a token, in
order, and the callback has no say in what it does next: it is modelled as the
list of its calls.
-/

namespace OtiKiosk

open Ascii

/-- `enum mjson_tok`, and the punctuation the callback is given by its
character: an opening bracket is the token of the value it opens. -/
inductive Tok
  | invalid | key | string | number | true | false | null | array | object
  | closeArray | closeObject | comma | colon
  deriving DecidableEq

def Tok.isValue : Tok → Bool
  | .string | .number | .true | .false | .null => Bool.true
  | _ => Bool.false

/-- One call of the callback: the token and where it lies in the text. -/
structure Event where
  tok : Tok
  off : ℕ
  len : ℕ
  deriving DecidableEq

inductive Expecting
  | value | key | colon | commaOrEoo
  deriving DecidableEq

/-! An entry of `nesting` is the kind of bracket opened. -/

def Bracket.openTok : Bracket → Tok
  | .curly => .object
  | .square => .array

def Bracket.closeTok : Bracket → Tok
  | .curly => .closeObject
  | .square => .closeArray

def mjsonErrorInvalidInput : ℤ := -1
def mjsonErrorTooDeep : ℤ := -2
def mjsonMaxDepth : ℕ := 20

def escaped : Bytes :=
  [backspace, formFeed, newline, carriageReturn, tab, backslash, quote, slash]

def escapes : Bytes := ascii "bfnrt" ++ [backslash, quote, slash]

/-- `mjson_esc` with `esc` set: is this a byte that has an escape? -/
def mjsonEscOf (c : UInt8) : Option UInt8 := (escaped.zip escapes).lookup c

/-- `mjson_esc` with `esc` clear: the byte an escape letter stands for. -/
def mjsonEsc (c : UInt8) : Option UInt8 := (escapes.zip escaped).lookup c

/-- `mjson_pass_string`: where the closing quote is. -/
def mjsonPassString : Bytes → ℕ → Option ℕ
  | _, 0 => none
  | [], _ + 1 => none
  | c :: s, len + 1 =>
      if c = backslash ∧ 0 < len ∧ (mjsonEscOf (s.headD nul)).isSome then
        match s, len with
        | _ :: s', len' + 1 => (mjsonPassString s' len').map (· + 2)
        | _, _ => none
      else if c = nul then none
      else if c = quote then some 0
      else (mjsonPassString s len).map (· + 1)

/-- One turn of the loop of `mjson`: a token that the scan goes on after, the
token that ends it, or an error. -/
inductive Turn
  | next (tok : Tok) (len : ℕ) (nesting : List Bracket) (expecting : Expecting)
  | finish (tok : Tok) (len : ℕ)
  | error (code : ℤ)
  deriving DecidableEq

/-- A token in value position that is not a bracket. -/
def valueTurn (nesting : List Bracket) (tok : Tok) (len : ℕ) : Turn :=
  if nesting = [] then .finish tok len else .next tok len nesting .commaOrEoo

/-- `MJSONEOO`, and the state after it. -/
def closeTurn (b : Bracket) : List Bracket → Turn
  | [] => .error mjsonErrorInvalidInput
  | top :: outer =>
      if b = top then
        if outer = [] then .finish b.closeTok 1 else .next b.closeTok 1 outer .commaOrEoo
      else .error mjsonErrorInvalidInput

def openTurn (b : Bracket) (nesting : List Bracket) (expecting : Expecting) : Turn :=
  if mjsonMaxDepth ≤ nesting.length then .error mjsonErrorTooDeep
  else .next b.openTok 1 (b :: nesting) expecting

def valueCase (s : Bytes) (avail : ℕ) (nesting : List Bracket) : Turn :=
  let c := s.headD nul
  if c = lbrace then openTurn .curly nesting .key
  else if c = lbracket then openTurn .square nesting .value
  else if c = rbracket ∧ nesting ≠ [] then closeTurn .square nesting
  else if ascii "true" <+: s ∧ 4 ≤ avail then valueTurn nesting .true 4
  else if ascii "null" <+: s ∧ 4 ≤ avail then valueTurn nesting .null 4
  else if ascii "false" <+: s ∧ 5 ≤ avail then valueTurn nesting .false 5
  else if c = minus ∨ isDigit c then valueTurn nesting .number (strtod s).2
  else if c = quote then
    match mjsonPassString s.tail (avail - 1) with
    | none => .error mjsonErrorInvalidInput
    | some n => valueTurn nesting .string (n + 2)
  else .error mjsonErrorInvalidInput

def keyCase (s : Bytes) (avail : ℕ) (nesting : List Bracket) : Turn :=
  let c := s.headD nul
  if c = quote then
    match mjsonPassString s.tail (avail - 1) with
    | none => .error mjsonErrorInvalidInput
    | some n => .next .key (n + 2) nesting .colon
  else if c = rbrace then closeTurn .curly nesting
  else .error mjsonErrorInvalidInput

def colonCase (s : Bytes) (nesting : List Bracket) : Turn :=
  if s.headD nul = colon then .next .colon 1 nesting .value else .error mjsonErrorInvalidInput

def commaOrEooCase (s : Bytes) : List Bracket → Turn
  | [] => .error mjsonErrorInvalidInput
  | top :: outer =>
      let c := s.headD nul
      if c = comma then
        .next .comma 1 (top :: outer) (if top = .curly then .key else .value)
      else if c = rbracket then closeTurn .square (top :: outer)
      else if c = rbrace then closeTurn .curly (top :: outer)
      else .error mjsonErrorInvalidInput

def turn (s : Bytes) (avail : ℕ) (nesting : List Bracket) : Expecting → Turn
  | .value => valueCase s avail nesting
  | .key => keyCase s avail nesting
  | .colon => colonCase s nesting
  | .commaOrEoo => commaOrEooCase s nesting

/-- The loop of `mjson`, at index `i` with `avail` bytes left before `len`; `s` is
the text from there on. Every turn reads at least one byte, except for a minus
sign that starts no number, after which the next turn fails. -/
def mjsonLoop : ℕ → Bytes → ℕ → ℕ → List Bracket → Expecting → ℤ × List Event
  | 0, _, _, _, _, _ => (mjsonErrorInvalidInput, [])
  | fuel + 1, s, i, avail, nesting, expecting =>
      if avail = 0 then (mjsonErrorInvalidInput, [])
      else if isWhitespace (s.headD nul) then
        mjsonLoop fuel s.tail (i + 1) (avail - 1) nesting expecting
      else
        match turn s avail nesting expecting with
        | .error code => (code, [])
        | .finish tok len => ((i + len : ℕ), [⟨tok, i, len⟩])
        | .next tok len nesting' expecting' =>
            let (ret, events) :=
              mjsonLoop fuel (s.drop len) (i + len) (avail - len) nesting' expecting'
            (ret, ⟨tok, i, len⟩ :: events)

/-- `mjson`: its return value and the calls it makes. -/
def mjson (s : Bytes) (len : ℕ) : ℤ × List Event :=
  mjsonLoop (2 * len + 2) s 0 len [] .value

end OtiKiosk
