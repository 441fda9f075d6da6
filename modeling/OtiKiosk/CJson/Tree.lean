import OtiKiosk.CJson.Print
import OtiKiosk.Lib.Members

/-!
What `cJSON.c` prints, as concrete syntax trees of JSON. In a formatted print the
members of an object stand on lines of their own, behind as many tabs as there are
brackets around them.
-/

namespace OtiKiosk

open Ascii Json

/-! ### Trees -/

def CJsonPart.Tree : CJsonPart → Type
  | .item => Value
  | .list => List (Bytes × Value)

/-- A string that is missing is printed as the empty one. -/
def stringBytes (s : Option CString) : Bytes := (s.map CString.bytes).getD []

def escapedText (s : Bytes) : Bytes := s.flatMap PrintBuffer.escaped

/-- What stands in a formatted print only. -/
def blank (format : Bool) (w : Bytes) : Bytes := if format then w else []

def newLine (format : Bool) (depth : ℕ) : Bytes :=
  blank format [newline] ++ blank format (List.replicate depth tab)

def labelled (format : Bool) (ms : List (Bytes × Value)) : List (Label .curly × Value) :=
  ms.map fun m => (.key m.1 [] (blank format [tab]), m.2)

/-- What is printed inside of `depth` brackets. A raw text stands where a number could. -/
def CJson.tree (format : Bool) {part : CJsonPart} : CJson part → (depth : ℕ) → part.Tree
  | .null, _ => Phrase.null
  | .false, _ => Phrase.false
  | .true, _ => Phrase.true
  | .number text, _ => if text.bytes = ascii "null" then Phrase.null else Phrase.number text.bytes
  | .raw s, _ => Phrase.number (stringBytes s)
  | .string s, _ => Phrase.string (escapedText (stringBytes s))
  | .array child, depth =>
      Phrase.node .square (spread [] (blank format [space]) []
        ((List.map Prod.snd (child.tree format (depth + 1))).map fun v => (.element, v)))
  | .object child, depth =>
      Phrase.node .curly (spread (newLine format (depth + 1)) (newLine format (depth + 1))
        (newLine format depth) (labelled format (child.tree format (depth + 1))))
  | .invalid, _ => Phrase.null
  | .nil, _ => []
  | .cons name item next, depth =>
      (escapedText (stringBytes name), item.tree format depth) :: next.tree format depth

def CJson.value (format : Bool) (item : CJson .item) (depth : ℕ) : Value := item.tree format depth

def CJson.members (format : Bool) (list : CJson .list) (depth : ℕ) : List (Bytes × Value) :=
  list.tree format depth

theorem CJson.members_cons (format : Bool) (d : ℕ) (name : Option CString) (item : CJson .item)
    (next : CJson .list) : (CJson.cons name item next).members format d =
      (escapedText (stringBytes name), item.value format d) :: next.members format d := rfl

theorem CJson.members_isEmpty (format : Bool) (d : ℕ) (list : CJson .list) :
    (list.members format d).isEmpty = list.isNil := by
  cases list with
  | nil => rfl
  | cons name item next => rfl

def CJson.text (format : Bool) (item : CJson .item) : Bytes := (item.value format 0).text

/-- Every item in it is of a type that is printed, raw texts are there, and the text of a number
fits into the array of `print_number`. -/
def CJson.Printable {part : CJsonPart} : CJson part → Prop
  | .number text => text.bytes.length ≤ 25
  | .raw s => s.isSome = Bool.true
  | .array child => child.Printable
  | .object child => child.Printable
  | .invalid => False
  | .cons _ item next => item.Printable ∧ next.Printable
  | _ => True

end OtiKiosk
