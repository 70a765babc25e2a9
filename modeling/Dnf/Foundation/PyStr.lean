import Mathlib.Data.List.Basic
import Mathlib.Data.List.Infix

/-!
# Python's `str`

A text is the list of its code points. Surrogates may stand in it on their own, as they do where bytes that are no UTF-8 were decoded with `surrogateescape`; such a text has no UTF-8 encoding. Bytes are characters below 256, as in the rest of the development.
-/

namespace Foundation

abbrev PyStr := List Nat

namespace PyStr

/-- A text without surrogates. -/
def ofChars (text : List Char) : PyStr := text.map Char.toNat

def isSurrogate (c : Nat) : Bool := 0xD800 ≤ c && c < 0xE000

/-- `text.encode('utf-8')` raises no `UnicodeEncodeError`. -/
def encodesUtf8 (text : PyStr) : Bool := text.all (!isSurrogate ·)

/-- `text.encode('ascii')`; `none` is the `UnicodeEncodeError`. -/
def encodeAscii (text : PyStr) : Option (List Char) :=
  if text.all (· < 128) then some (text.map Char.ofNat) else none

/-- What `\s` matches. -/
def isSpace (c : Nat) : Bool :=
  (9 ≤ c && c ≤ 13) || (28 ≤ c && c ≤ 32) || c == 0x85 || c == 0xA0 || c == 0x1680 ||
    (0x2000 ≤ c && c ≤ 0x200A) || c == 0x2028 || c == 0x2029 || c == 0x202F || c == 0x205F || c == 0x3000

theorem toNat_inj {c d : Char} : c.toNat = d.toNat ↔ c = d :=
  ⟨fun h => Char.toNat_inj.mp h, fun h => h ▸ rfl⟩

theorem mem_ofChars {c : Char} {text : List Char} : c.toNat ∈ ofChars text ↔ c ∈ text :=
  List.mem_map_of_injective fun _ _ => toNat_inj.mp

theorem reverse_ofChars (text : List Char) : (ofChars text).reverse = ofChars text.reverse := List.map_reverse.symm

theorem tail_ofChars (text : List Char) : (ofChars text).tail = ofChars text.tail := List.map_tail.symm

theorem takeWhile_ofChars (stop : Char) (text : List Char) :
    List.takeWhile (· ≠ stop.toNat) (ofChars text) = ofChars (text.takeWhile (· ≠ stop)) := by
  rw [ofChars, List.takeWhile_map, ofChars]
  congr 2
  funext c
  simp [toNat_inj]

theorem dropWhile_ofChars (stop : Char) (text : List Char) :
    List.dropWhile (· ≠ stop.toNat) (ofChars text) = ofChars (text.dropWhile (· ≠ stop)) := by
  rw [ofChars, List.dropWhile_map, ofChars]
  congr 2
  funext c
  simp [toNat_inj]

theorem splitOn_ofChars (sep : Char) (text : List Char) :
    (ofChars text).splitOn sep.toNat = (text.splitOn sep).map ofChars := by
  induction text with
  | nil => rfl
  | cons c text ih =>
      rw [ofChars, List.map_cons, List.splitOn_cons_eq_if_modifyHead, List.splitOn_cons_eq_if_modifyHead]
      by_cases hc : c = sep
      · rw [if_pos (beq_iff_eq.mpr (congrArg Char.toNat hc)), if_pos (beq_iff_eq.mpr hc), List.map_cons, ← ih]
        rfl
      · rw [if_neg fun h => hc (toNat_inj.mp (beq_iff_eq.mp h)), if_neg fun h => hc (beq_iff_eq.mp h), ← ofChars, ih]
        cases text.splitOn sep <;> rfl

theorem encodeAscii_ofChars (text : List Char) :
    encodeAscii (ofChars text) = if text.all (·.toNat < 128) then some text else none := by
  rw [encodeAscii, ofChars, List.all_map, List.map_map]
  congr 2
  rw [show Char.ofNat ∘ Char.toNat = id from funext Char.ofNat_toNat, List.map_id]

end PyStr

end Foundation
