import OtiKiosk.Commands.Types

/-!
`build_command`: `vsnprintf` with the two conversions the templates use. A `%d`
takes an `int`, whatever the type of the argument was, so an unsigned value of
`2 ^ 31` or more is printed as a negative number.
-/

namespace OtiKiosk

open Ascii

inductive FormatArg
  | int (v : BitVec 32)
  | str (s : CString)

def natText (n : ℕ) : Bytes :=
  if n = 0 then [48] else (Nat.digits 10 n).reverse.map fun d => 48 + UInt8.ofNat d

/-- What `%d` prints. -/
def intText (v : ℤ) : Bytes := if v < 0 then minus :: natText v.natAbs else natText v.natAbs

/-- A format string applied to its arguments; a conversion without an argument of its kind does
not occur. -/
def formatText : Bytes → List FormatArg → Bytes
  | [], _ => []
  | [c], _ => [c]
  | c :: c' :: t, args =>
      if c = percent then
        match args with
        | .int v :: args => if c' = 100 then intText v.toInt ++ formatText t args else []
        | .str s :: args => if c' = 115 then s.bytes ++ formatText t args else []
        | [] => []
      else c :: formatText (c' :: t) args

/-- `build_command`; `alloc` says whether `calloc` finds memory. -/
def buildCommand (alloc : Bool) (template : Bytes) (args : List FormatArg) : Option Bytes :=
  if alloc then some (formatText template args) else none

example : formatText (ascii "a%s,%d.") [.str ⟨ascii "bc", by decide⟩, .int (-12)] =
    ascii "abc,-12." := by decide +kernel

end OtiKiosk
