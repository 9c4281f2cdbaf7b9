/-!
# Byte strings

Bytes are lists, so that a reader is a function that takes the front of a list and leaves the rest.
Fixed-width numbers are little-endian: `Bytes.littleEndian` writes the low bytes of a natural number
and `Bytes.number` reads them back. Texts are their UTF-8 bytes. `Bytes.hex` shows bytes as
hexadecimal digits.
-/

namespace Resumable

/-- A byte string, first byte at the head. -/
abbrev Bytes := List UInt8

namespace Bytes

/-- The low `width` bytes of a number, least significant first. -/
def littleEndian : (width : Nat) → (n : Nat) → Bytes
  | 0, _ => []
  | width + 1, n => UInt8.ofNat n :: littleEndian width (n / 256)

/-- The number whose little-endian bytes are given. -/
def number : Bytes → Nat
  | [] => 0
  | b :: rest => b.toNat + 256 * number rest

@[simp] theorem length_littleEndian (width n : Nat) : (littleEndian width n).length = width := by
  induction width generalizing n with
  | zero => rfl
  | succ width ih => simp [littleEndian, ih]

/-- Bytes are the only ones of their length that spell their number. -/
theorem littleEndian_number (bs : Bytes) : littleEndian bs.length (number bs) = bs := by
  induction bs with
  | nil => rfl
  | cons b rest ih =>
    have hb : b.toNat < 256 := b.toNat_lt
    have hdiv : (b.toNat + 256 * number rest) / 256 = number rest := by omega
    have hbyte : UInt8.ofNat (b.toNat + 256 * number rest) = b := by
      apply UInt8.toNat_inj.1
      simp only [UInt8.toNat_ofNat']
      omega
    simp only [List.length_cons, littleEndian, number, hdiv, hbyte, ih]

/-- The UTF-8 bytes of a text. -/
def ofText (s : String) : Bytes := s.toByteArray.data.toList

/-- The text that some bytes spell in UTF-8, if they spell one. -/
def text? (bs : Bytes) : Option String := String.fromUTF8? ⟨bs.toArray⟩

@[simp] theorem text?_ofText (s : String) : text? (ofText s) = some s := by
  have h : (⟨(s.toByteArray.data.toList).toArray⟩ : ByteArray) = s.toByteArray := by simp
  simp only [text?, ofText, h, String.fromUTF8?]
  rw [dif_pos s.isValidUTF8]
  simp [String.fromUTF8]

/-- Bytes spell at most one text, and it spells them back. -/
theorem ofText_of_text? {bs : Bytes} {s : String} (h : text? bs = some s) : ofText s = bs := by
  unfold text? String.fromUTF8? at h
  split at h
  · cases h
    simp [ofText, String.fromUTF8]
  · cases h

/-- Two lower-case hexadecimal digits of a byte. -/
def hexDigits (b : UInt8) : List Char := [Nat.digitChar (b.toNat / 16), Nat.digitChar (b.toNat % 16)]

/-- The hexadecimal text of bytes. -/
def hex (bs : Bytes) : String := String.ofList (bs.flatMap hexDigits)

/-- The value of a hexadecimal digit. -/
def hexValue? (c : Char) : Option Nat :=
  if '0' ≤ c ∧ c ≤ '9' then some (c.toNat - '0'.toNat)
  else if 'a' ≤ c ∧ c ≤ 'f' then some (c.toNat - 'a'.toNat + 10)
  else none

/-- The bytes that pairs of hexadecimal digits spell. -/
def ofHexDigits? : List Char → Option Bytes
  | [] => some []
  | [_] => none
  | high :: low :: rest => do
    return UInt8.ofNat (16 * (← hexValue? high) + (← hexValue? low)) :: (← ofHexDigits? rest)

/-- The bytes of a hexadecimal text. -/
def ofHex? (s : String) : Option Bytes := ofHexDigits? s.toList

end Bytes

end Resumable
