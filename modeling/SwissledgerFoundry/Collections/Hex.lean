import SwissledgerFoundry.Collections.Radix

/-!
# Hexadecimal strings

Two digits for each byte.  The decoder takes both cases of letters and an
optional `0x` or `0X` in front.
-/

namespace Hex

open List Radix

def byteChars (byte : UInt8) : List Char :=
  [(byte.toNat / 16).digitChar, (byte.toNat % 16).digitChar]

def encode (bytes : List UInt8) : List Char := bytes.flatMap byteChars

def decodeDigits : List Char → Option (List UInt8)
  | [] => some []
  | [_] => none
  | high :: low :: rest => do
      let left ← digit 16 high
      let right ← digit 16 low
      let bytes ← decodeDigits rest
      return UInt8.ofNat (left * 16 + right) :: bytes

def stripPrefix : List Char → List Char
  | '0' :: 'x' :: rest => rest
  | '0' :: 'X' :: rest => rest
  | chars => chars

def decode (chars : List Char) : Option (List UInt8) := decodeDigits (stripPrefix chars)

/-- Hexadecimal digits need no escape in a quoted string. -/
theorem plain_of_mem_encode {bytes : List UInt8} {char : Char} (member : char ∈ encode bytes) :
    char ≠ '"' ∧ char ≠ '\\' ∧ 0x20 ≤ char.toNat := by
  have digits : ∀ digit < 16, digit.digitChar ≠ '"' ∧
      digit.digitChar ≠ '\\' ∧ 0x20 ≤ digit.digitChar.toNat := by
    decide
  obtain ⟨byte, _, inByte⟩ := mem_flatMap.mp member
  have bounded := byte.toNat_lt
  obtain rfl | rfl : char = (byte.toNat / 16).digitChar ∨ char = (byte.toNat % 16).digitChar := by
    simpa [byteChars] using inByte
  · exact digits _ (by omega)
  · exact digits _ (by omega)

theorem decodeDigits_encode {bytes : List UInt8} : decodeDigits (encode bytes) = some bytes := by
  induction bytes with
  | nil => rfl
  | cons byte bytes ih =>
    have bounded := byte.toNat_lt
    have rebuilt : byte.toNat / 16 * 16 + byte.toNat % 16 = byte.toNat := by omega
    change decodeDigits (_ :: _ :: encode bytes) = _
    rw [decodeDigits, digit_digitChar le_rfl (by omega),
      digit_digitChar le_rfl (by omega), ih]
    simp only [bind, Option.bind, pure, rebuilt, UInt8.ofNat_toNat]

theorem decode_prefixed_encode (bytes : List UInt8) :
    decode ('0' :: 'x' :: encode bytes) = some bytes :=
  decodeDigits_encode

end Hex
