import OtiKiosk.Client.Numbers
import OtiKiosk.Lib.Sink

/-!
The printers of `mjson.c`. Every printer hands its output to `out->print` in pieces;
it is modelled as the list of these pieces. `mjson_vprintf` is a loop over the format
that takes arguments as the conversions ask for them; where it would fetch an
argument of another kind, or read past the end of the format or of an array, there
is no list.
-/

namespace OtiKiosk

open Ascii Json

namespace Ascii

/-! The characters of conversions. -/

abbrev asterisk : UInt8 := 42
abbrev letterB : UInt8 := 66
abbrev letterH : UInt8 := 72
abbrev letterM : UInt8 := 77
abbrev letterQ : UInt8 := 81
abbrev letterV : UInt8 := 86
abbrev letterD : UInt8 := 100
abbrev letterF : UInt8 := 102
abbrev letterG : UInt8 := 103
abbrev letterL : UInt8 := 108
abbrev letterS : UInt8 := 115
abbrev letterU : UInt8 := 117

end Ascii

/-! ### Outputs -/

/-- `mjson_out` with a buffer of `size` bytes; it is never filled beyond them. -/
structure FixedBuf (size : ℕ) where
  written : Bytes
  fits : written.length ≤ size
  overflow : Bool
  deriving DecidableEq

def mjsonPrintFixedBuf {size : ℕ} (out : FixedBuf size) (ptr : Bytes) : FixedBuf size × ℕ :=
  let left := size - out.written.length
  let len := if left < ptr.length then left else ptr.length
  ({ written := out.written ++ ptr.take len
     fits := by
      have hfits := out.fits
      have hlen : len ≤ left := by
        show (if left < ptr.length then left else ptr.length) ≤ left
        split_ifs <;> omega
      simp only [List.length_append, List.length_take]
      omega
     overflow := if left < ptr.length then true else out.overflow }, len)

def fixedBuf (size : ℕ) : Sink (FixedBuf size) UInt8 := ⟨mjsonPrintFixedBuf⟩

/-- `MJSON_OUT_FIXED_BUF` -/
def FixedBuf.empty (size : ℕ) : FixedBuf size := ⟨[], Nat.zero_le _, false⟩

/-- The block that `*out->u.dynamic_buf` points to, if any, and the calls of `realloc` so far. -/
structure DynamicBuf where
  buf : Option Bytes
  calls : ℕ

/-- `mjson_print_dynamic_buf`, where `realloc n size` says whether the call after `n` others gets a
block of `size` bytes. -/
def mjsonPrintDynamicBuf (realloc : ℕ → ℕ → Bool) (out : DynamicBuf) (ptr : Bytes) :
    DynamicBuf × ℕ :=
  let cur := (out.buf.map cString).getD []
  if realloc out.calls (cur.length + ptr.length + 1) then
    (⟨some (cur ++ ptr ++ [nul]), out.calls + 1⟩, ptr.length)
  else (⟨out.buf, out.calls + 1⟩, 0)

def dynamicBuf (realloc : ℕ → ℕ → Bool) : Sink DynamicBuf UInt8 := ⟨mjsonPrintDynamicBuf realloc⟩

/-! ### Values -/

/-- `snprintf` into an array of `size` bytes, and what is printed of the array with the length it
returns. -/
def printedFrom (size : ℕ) (text : Bytes) : Option Bytes :=
  if text.length ≤ size then some ((text.take (size - 1) ++ [nul]).take text.length) else none

/-- The text of an integer, signed or not. -/
def integerText {w : ℕ} (value : BitVec w) (isSigned : Bool) : Bytes :=
  if isSigned then intText value.toInt else natText value.toNat

def mjsonPrintInt (value : BitVec 32) (isSigned : Bool) : Option Bytes :=
  printedFrom 20 (integerText value isSigned)

def mjsonPrintLong (value : BitVec 64) (isSigned : Bool) : Option Bytes :=
  printedFrom 20 (integerText value isSigned)

/-- `mjson_print_dbl`, with the text that the C library makes of the number. -/
def mjsonPrintDbl (text : Bytes) : Option Bytes := printedFrom 40 text

/-- What `mjson_print_str` prints for one byte. -/
def escapePieces (c : UInt8) : List Bytes :=
  match mjsonEscOf c with
  | some e => [[backslash], [e]]
  | none => [[c]]

def mjsonPrintStr (s : Bytes) : List Bytes := [quote] :: (s.flatMap escapePieces ++ [[quote]])

def base64Alphabet : Bytes :=
  ascii "ABCDEFGHIJKLMNOPQRSTUVWXYZabcdefghijklmnopqrstuvwxyz0123456789+/"

def base64Char (k : ℕ) : UInt8 := base64Alphabet.getD k nul

def base64Quad (a : ℕ) (b c : Option ℕ) : Bytes :=
  [base64Char (a >>> 2), base64Char ((a &&& 3) <<< 4 ||| b.getD 0 >>> 4),
    match b with
    | some b => base64Char ((b &&& 15) <<< 2 ||| c.getD 0 >>> 6)
    | none => 61,
    match c with
    | some c => base64Char (c &&& 63)
    | none => 61]

def base64Quads : Bytes → List Bytes
  | [] => []
  | [a] => [base64Quad a.toNat none none]
  | [a, b] => [base64Quad a.toNat (some b.toNat) none]
  | a :: b :: c :: s => base64Quad a.toNat (some b.toNat) (some c.toNat) :: base64Quads s

def mjsonPrintB64 (s : Bytes) : List Bytes := [quote] :: (base64Quads s ++ [[quote]])

def hexPieces (c : UInt8) : List Bytes :=
  [[(ascii "0123456789abcdef").getD ((c.toNat >>> 4) &&& 15) nul],
    [(ascii "0123456789abcdef").getD (c.toNat &&& 15) nul]]

/-! ### Formats -/

/-- What a conversion fetches: a double is given by its texts for `%g` and `%f`, a length and a
buffer by the bytes they mean, and a printer for `%M` by the pieces it prints. -/
inductive PrintArg
  | int (v : BitVec 32)
  | long (v : BitVec 64)
  | double (g f : Bytes)
  | str (s : CString)
  | mem (s : Bytes)
  | fn (pieces : List Bytes)

/-- One conversion, from the byte behind the percent sign on: the pieces it prints, the arguments
that are left, and how many bytes of the format it used. `%M` looks at its argument through a copy
of the list and leaves it there. -/
def conversion (fmt : Bytes) (args : List PrintArg) :
    Option (List Bytes × List PrintArg × ℕ) :=
  match fmt with
  | [] => none
  | c :: fmt' =>
      let isLong := c = letterL
      let fc := if isLong then fmt'.headD nul else c
      if fc = letterQ then
        match args with
        | .str s :: args => some (mjsonPrintStr s.bytes, args, 1)
        | _ => none
      else if [dot, asterisk, letterQ] <+: c :: fmt' then
        match args with
        | .mem s :: args => some (mjsonPrintStr s, args, 3)
        | _ => none
      else if fc = letterD ∨ fc = letterU then
        if isLong then
          match args with
          | .long v :: args => (mjsonPrintLong v (fc = letterD)).map fun p => ([p], args, 2)
          | _ => none
        else
          match args with
          | .int v :: args => (mjsonPrintInt v (fc = letterD)).map fun p => ([p], args, 1)
          | _ => none
      else if fc = letterB then
        match args with
        | .int v :: args => some ([if v ≠ 0 then ascii "true" else ascii "false"], args, 1)
        | _ => none
      else if fc = letterS then
        match args with
        | .str s :: args => some ([s.bytes], args, 1)
        | _ => none
      else if [dot, asterisk, letterS] <+: c :: fmt' then
        match args with
        | .mem s :: args => some ([s], args, 3)
        | _ => none
      else if fc = letterG then
        match args with
        | .double g _ :: args => (mjsonPrintDbl g).map fun p => ([p], args, 1)
        | _ => none
      else if fc = letterF then
        match args with
        | .double _ f :: args => (mjsonPrintDbl f).map fun p => ([p], args, 1)
        | _ => none
      else if fc = letterV then
        match args with
        | .mem s :: args => some (mjsonPrintB64 s, args, 1)
        | _ => none
      else if fc = letterH then
        match args with
        | .mem s :: args => some ([quote] :: (s.flatMap hexPieces ++ [[quote]]), args, 1)
        | _ => none
      else if fc = letterM then
        match args with
        | .fn pieces :: args => some (pieces, .fn pieces :: args, 1)
        | _ => none
      else some ([], args, 1)

/-- The loop of `mjson_vprintf`, when the next `skip` bytes of the format were used already. -/
def mjsonVprintfLoop : ℕ → Bytes → List PrintArg → Option (List Bytes)
  | _, [], _ => some []
  | skip + 1, _ :: fmt, args => mjsonVprintfLoop skip fmt args
  | 0, c :: fmt, args =>
      if c = percent then
        match conversion fmt args with
        | none => none
        | some (pieces, args, used) => (mjsonVprintfLoop used fmt args).map (pieces ++ ·)
      else (mjsonVprintfLoop 0 fmt args).map ([c] :: ·)

/-- `mjson_vprintf`, and `mjson_printf`, which only collects the arguments. -/
def mjsonVprintf (fmt : Bytes) (args : List PrintArg) : Option (List Bytes) :=
  mjsonVprintfLoop 0 fmt args

example : (mjsonVprintf (ascii "\x7b%Q:[%d,%lu,%B]\x7d")
    [.str ⟨ascii "a\"b", by decide⟩, .int (-5), .long 7, .int 0]).map List.flatten =
      some (ascii "\x7b\"a\\\"b\":[-5,7,false]\x7d") := by decide

end OtiKiosk
