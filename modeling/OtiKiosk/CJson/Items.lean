import OtiKiosk.CJson.Meaning

/-!
Making items and looking members up. A lookup finds in an item what the text of the
item says: the first member of a name, as long as all members have names.
-/

namespace OtiKiosk

open Ascii Json

namespace CJson

def child : CJson .item → CJson .list
  | .array child => child
  | .object child => child
  | _ => .nil

/-- `suffix_object` behind the last item of a list. -/
def append {part : CJsonPart} : CJson part → Option CString → CJson .item → CJson part
  | .nil, name, item => .cons name item .nil
  | .cons name' item' next, name, item => .cons name' item' (next.append name item)
  | c, _, _ => c

def sameName (caseSensitive : Bool) (s t : CString) : Bool :=
  if caseSensitive then s.bytes = t.bytes else s.bytes.map toLower = t.bytes.map toLower

@[simp] theorem sameName_true (s t : CString) :
    sameName Bool.true s t = Bool.true ↔ s.bytes = t.bytes := by
  simp [sameName]

/-- The loop of `get_object_item`. Without a name, an item ends the search if case matters, and is
passed over otherwise. -/
def getObjectItem {part : CJsonPart} :
    CJson part → (name : CString) → (caseSensitive : Bool) → Option (CJson .item)
  | .cons none _ next, name, caseSensitive =>
      if caseSensitive then none else next.getObjectItem name caseSensitive
  | .cons (some s) item next, name, caseSensitive =>
      if sameName caseSensitive name s then some item else next.getObjectItem name caseSensitive
  | _, _, _ => none

def Named {part : CJsonPart} : CJson part → Prop
  | .cons name _ next => name.isSome = Bool.true ∧ next.Named
  | _ => True

end CJson

def cJsonCreateObject : CJson .item := .object .nil

def cJsonCreateString (string : CString) : CJson .item := .string (some string)

/-- `cJSON_AddItemToObject`, for an item that can have members. -/
def cJsonAddItemToObject (object : CJson .item) (string : CString) (item : CJson .item) :
    CJson .item :=
  match object with
  | .array child => .array (child.append (some string) item)
  | .object child => .object (child.append (some string) item)
  | other => other

def cJsonAddStringToObject (object : CJson .item) (name string : CString) : CJson .item :=
  cJsonAddItemToObject object name (cJsonCreateString string)

def cJsonGetObjectItemCaseSensitive (object : CJson .item) (string : CString) :
    Option (CJson .item) :=
  object.child.getObjectItem string true

/-- What is found is the first of the entries with that name. -/
theorem getObjectItem_entries (name : CString) : (list : CJson .list) → list.Named →
    (list.entries.find? fun m => m.1 = name.bytes).map Prod.snd =
      (list.getObjectItem name true).map CJson.datum
  | .nil, _ => rfl
  | .cons none _ _, h => absurd h.1 nofun
  | .cons (some s) item next, h => by
      have hcons : (CJson.cons (some s) item next).entries = (s.bytes, item.datum) :: next.entries :=
        rfl
      simp only [hcons, CJson.getObjectItem, CJson.sameName_true]
      by_cases hname : name.bytes = s.bytes
      · rw [List.find?_cons_of_pos (by simpa using hname.symm), if_pos hname]
        rfl
      · rw [List.find?_cons_of_neg (by simpa using Ne.symm hname), if_neg hname]
        exact getObjectItem_entries name next h.2

/-- A lookup in an object finds what the object stands for at that name. -/
theorem getObjectItem_datum {child : CJson .list} (h : child.Named) (name : CString) :
    (CJson.object child).datum.get name.bytes =
      (cJsonGetObjectItemCaseSensitive (.object child) name).map CJson.datum :=
  getObjectItem_entries name child h

/-- **Both prints mean the item**: without raw texts, what `cJSON_PrintUnformatted` and `cJSON_Print`
return are texts of RFC 8259 that mean the same, and the members of an object in them are those
that `cJSON_GetObjectItemCaseSensitive` finds. -/
theorem cjsonPrint_means (A : Allocator) {item : CJson .item} (h : item.Plain) :
    (∀ format, ∃ v : Value, v.WF strict ∧ v.datum = item.datum ∧
      ∀ s, cjsonPrint A format item = some (some s) → s = v.text ++ [nul]) ∧
    ∀ child, item = .object child → child.Named → ∀ name : CString,
      item.datum.get name.bytes =
        (cJsonGetObjectItemCaseSensitive item name).map CJson.datum := by
  refine ⟨fun format => ?_, ?_⟩
  · obtain ⟨hwf, hdatum, -⟩ := stands_of_plain format h 0
    refine ⟨item.value format 0, hwf, hdatum, fun s hs => ?_⟩
    obtain ⟨result, hprint, htext, -⟩ := cjsonPrint_returns A format item
    obtain rfl : result = some s := Option.some.inj (hprint.symm.trans hs)
    exact (htext s rfl).2
  · rintro child rfl hnamed name
    exact getObjectItem_datum hnamed name

/-- A quote, a newline and a byte that has no escape of its own. -/
def oddItem : CJson .item :=
  cJsonAddStringToObject cJsonCreateObject ⟨ascii "\"", by decide⟩ ⟨[newline, 1], by decide⟩

theorem cjsonPrint_means_odd :
    (∀ format, ∃ v : Value, v.WF strict ∧ v.datum = oddItem.datum ∧
      ∀ s, cjsonPrint .zeros format oddItem = some (some s) → s = v.text ++ [nul]) ∧
    ∀ child, oddItem = .object child → child.Named → ∀ name : CString,
      oddItem.datum.get name.bytes =
        (cJsonGetObjectItemCaseSensitive oddItem name).map CJson.datum :=
  cjsonPrint_means .zeros ⟨trivial, trivial⟩

end OtiKiosk
