import HornLogic.Proofs.Text
import HornLogic.Session.Sink

/-!
# Texts as bytes

The UTF-8 form of a text spells each of its characters, and it spells the two
characters at the end of a line as one byte each that stands nowhere else.  So
the bytes of a text have the lines of the text.
-/

namespace HornLogic

open String (utf8EncodeChar)

namespace Text

/-- A byte below 128 spells one character, on its own. -/
theorem toNat_of_mem_utf8EncodeChar {c : Char} {byte : UInt8}
    (member : byte ∈ utf8EncodeChar c) (small : byte.toNat < 128) :
    c.toNat = byte.toNat := by
  change c.val.toNat = byte.toNat
  by_cases ascii : c.val.toNat ≤ 127
  · rw [utf8EncodeChar, if_pos ascii, List.mem_singleton] at member
    rw [member, UInt8.toNat_ofNat']
    omega
  · -- every byte of a longer spelling has its highest bit set
    rw [utf8EncodeChar, if_neg ascii] at member
    simp only [apply_ite (byte ∈ ·), List.mem_cons, List.not_mem_nil, or_false,
      ← UInt8.toNat_inj, UInt8.toNat_ofNat'] at member
    split at member
    · omega
    · split at member <;> omega

theorem spelling_utf8EncodeChar : Spelling utf8EncodeChar '\r' '\n' 13 10 where
  nonempty c := by
    rw [← List.length_pos_iff, String.length_utf8EncodeChar]
    exact c.utf8Size_pos
  spell_return := by decide
  spell_feed := by decide
  eq_return member := Char.toNat_inj.mp (toNat_of_mem_utf8EncodeChar member (by decide))
  eq_feed member := Char.toNat_inj.mp (toNat_of_mem_utf8EncodeChar member (by decide))

end Text

namespace Sink

theorem bytesOf_ofList (text : List Char) :
    bytesOf (String.ofList text) = text.flatMap utf8EncodeChar := by
  rw [bytesOf, String.toUTF8_eq_toByteArray, String.toByteArray_ofList,
    List.utf8Encode, List.toList_data_toByteArray]

theorem bytesOf_eq (text : String) :
    bytesOf text = text.toList.flatMap utf8EncodeChar := by
  rw [← bytesOf_ofList, String.ofList_toList]

theorem bytesOf_append (front back : String) :
    bytesOf (front ++ back) = bytesOf front ++ bytesOf back := by
  rw [bytesOf_eq, bytesOf_eq, bytesOf_eq, String.toList_append, List.flatMap_append]

/-- The text of some bytes is the one that has these bytes. -/
theorem fromUTF8?_eq_some_iff {bytes : List UInt8} {text : String} :
    String.fromUTF8? ⟨bytes.toArray⟩ = some text ↔ bytesOf text = bytes := by
  constructor
  · intro decoded
    rw [String.fromUTF8?] at decoded
    split at decoded
    · cases decoded
      rfl
    · cases decoded
  · rintro rfl
    exact dif_pos text.isValidUTF8

end Sink

namespace Text

open Sink (bytesOf bytesOf_ofList bytesOf_eq fromUTF8?_eq_some_iff)

/-- The lines of the bytes of a text are the lines of the text. -/
theorem linesOfBytes_bytesOf (text : String) :
    linesOfBytes (bytesOf text) = (linesOf text).map some := by
  have same := spelling_utf8EncodeChar.cutLines [] text.toList
  rw [List.reverse_nil, List.flatMap_nil, List.reverse_nil, ← bytesOf_eq] at same
  rw [linesOfBytes, same, linesOf, lines, List.map_map, List.map_map]
  refine List.map_congr_left fun line _ => ?_
  exact fromUTF8?_eq_some_iff.mpr (bytesOf_ofList line)

/-- No line holds a line feed, whatever the bytes. -/
theorem lineFeed_not_mem_linesOfBytes {bytes : List UInt8} {line : String}
    (member : some line ∈ linesOfBytes bytes) : '\n' ∉ line.toList := by
  intro feed
  obtain ⟨cut, isCut, decoded⟩ := List.mem_map.mp member
  refine lineFeed_not_mem_cutLines (List.not_mem_nil) cut isCut ?_
  rw [← fromUTF8?_eq_some_iff.mp decoded, bytesOf_eq]
  exact List.mem_flatMap.mpr ⟨'\n', feed, by decide⟩

end Text

end HornLogic
