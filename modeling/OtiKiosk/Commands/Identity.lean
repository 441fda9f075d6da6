import OtiKiosk.Commands.Parse
import OtiKiosk.Mjson.Values

/-!
The id of a message, which is what tells a response from an event and one
command from another.
-/

namespace OtiKiosk

open Ascii Json

theorem path_id : ascii "$.id" = pathOf [ascii "id"] := by decide

theorem path_error : ascii "$.error" = pathOf [ascii "error"] := by decide

theorem path_result : ascii "$.result" = pathOf [ascii "result"] := by decide

section

variable {s s' : Bytes} {len i : ℕ} {t : Value}

/-- A member found by its name lies in the text. -/
theorem Denotes.find_member (h : Denotes s len t i) {n : Bytes} (hn : IsName n) :
    mjsonFind s len (pathOf [n]) = .of (Located.member ⟨i, t⟩ n) ∧
      ∀ u, Located.member ⟨i, t⟩ n = some u → u.Member s :=
  ⟨h.mjsonFind_member hn, fun _ hu => member_of_member h.in hu⟩

def messageId (message : Located) : Option ℤ :=
  ((message.member (ascii "id")).bind fun v => v.value.number?).map Double.toInt

theorem Denotes.parseId_eq (h : Denotes s len t i) : parseId s len = messageId ⟨i, t⟩ := by
  obtain ⟨hfind, hmember⟩ := h.find_member (n := ascii "id") (by decide)
  rw [parseId, path_id, mjsonGetNumber_of hfind hmember, messageId]

theorem parseId_none (h : ∀ t i, ¬Denotes s len t i) : parseId s len = none := by
  rw [parseId, path_id, mjsonGetNumber, mjsonFind_none h]
  rfl

/-- A text with an id is the text of an object or an array. -/
theorem parseId_denotes {id : ℤ} (h : parseId s len = some id) : ∃ t i, Denotes s len t i := by
  by_contra hno
  push Not at hno
  rw [parseId_none hno] at h
  cases h

/-- The id of a message does not depend on the memory after it. -/
theorem parseId_congr (hs : s.take len = s'.take len) : parseId s len = parseId s' len := by
  by_cases h : ∃ t i, Denotes s len t i
  · obtain ⟨t, i, h⟩ := h
    rw [h.parseId_eq, (h.congr hs).parseId_eq]
  · push Not at h
    rw [parseId_none h, parseId_none fun t i h' => h t i (h'.congr hs.symm)]

end

end OtiKiosk
