import Mathlib

/-!
Bytes and the ASCII characters the sources name by a character literal. A text
is the list of its bytes; memory past the end of a list reads as NUL.
-/

namespace OtiKiosk

/-- What holds of the bytes of a text is decided along the text, not for all bytes there are. -/
instance (priority := 2000) decidableAlong {α : Type} {p : α → Prop} [DecidablePred p]
    (l : List α) : Decidable (∀ x ∈ l, p x) := List.decidableBAll p l

abbrev Bytes := List UInt8

def ascii (s : String) : Bytes := s.toList.map Char.toUInt8

namespace Ascii

abbrev nul : UInt8 := 0
abbrev backspace : UInt8 := 8
abbrev tab : UInt8 := 9
abbrev newline : UInt8 := 10
abbrev formFeed : UInt8 := 12
abbrev carriageReturn : UInt8 := 13
abbrev space : UInt8 := 32
abbrev quote : UInt8 := 34
abbrev dollar : UInt8 := 36
abbrev percent : UInt8 := 37
abbrev lparen : UInt8 := 40
abbrev rparen : UInt8 := 41
abbrev plus : UInt8 := 43
abbrev comma : UInt8 := 44
abbrev minus : UInt8 := 45
abbrev dot : UInt8 := 46
abbrev slash : UInt8 := 47
abbrev colon : UInt8 := 58
abbrev lbracket : UInt8 := 91
abbrev backslash : UInt8 := 92
abbrev rbracket : UInt8 := 93
abbrev underscore : UInt8 := 95
abbrev lbrace : UInt8 := 123
abbrev rbrace : UInt8 := 125

def isDigit (c : UInt8) : Bool := 48 ≤ c && c ≤ 57

def isAlpha (c : UInt8) : Bool := (65 ≤ c && c ≤ 90) || (97 ≤ c && c ≤ 122)

/-- `isxdigit` in the "C" locale. -/
def isHexDigit (c : UInt8) : Bool :=
  isDigit c || (65 ≤ c && c ≤ 70) || (97 ≤ c && c ≤ 102)

/-- `tolower` in the "C" locale. -/
def toLower (c : UInt8) : UInt8 := if 65 ≤ c && c ≤ 90 then c + 32 else c

/-- `isspace` in the "C" locale. -/
def isSpace (c : UInt8) : Bool := c == space || (9 ≤ c && c ≤ 13)

/-- The number a hexadecimal digit stands for. -/
def digitValue (c : UInt8) : ℕ :=
  if isDigit c then c.toNat - 48 else (toLower c).toNat - 87

end Ascii

/-- The bytes of a C string: those before the first NUL. -/
def cString (s : Bytes) : Bytes := s.takeWhile (· != Ascii.nul)

/-- A NUL-terminated string, without its terminator. -/
structure CString where
  bytes : Bytes
  noNul : Ascii.nul ∉ bytes
  deriving DecidableEq

end OtiKiosk
