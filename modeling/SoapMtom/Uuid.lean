import SoapMtom.Bytes

/-!
# Identifiers drawn at random

A `Uuid` is a number of 128 bits. Whoever runs the library draws it; here it is only written down,
as 32 lower-case hexadecimal digits or as 16 bytes. A run that needs several takes them from an
`IdStream`, so that every statement about it holds for each outcome of the draws.
-/

namespace SoapMtom

/-- An identifier of 128 bits. -/
abbrev Uuid := BitVec 128

/-- The identifiers that successive draws yield. -/
abbrev IdStream := Nat → Uuid

namespace Uuid

/-- The lower-case hexadecimal digit of a number below 16. -/
def hexDigit (n : Nat) : Char := Char.ofNat (if n < 10 then 48 + n else 87 + n)

/-- The lowest `width` hexadecimal digits of `n`, most significant first. -/
def hexDigits : Nat → Nat → List Char
  | 0, _ => []
  | width + 1, n => hexDigits width (n / 16) ++ [hexDigit (n % 16)]

/-- The 32 hexadecimal digits of the identifier. -/
def digits (id : Uuid) : List Char := hexDigits 32 id.toNat

/-- The 32 hexadecimal digits, as text. -/
def simple (id : Uuid) : String := String.ofList id.digits

/-- The lowest `width` bytes of `n`, most significant first. -/
def bigEndian : Nat → Nat → Bytes
  | 0, _ => []
  | width + 1, n => bigEndian width (n / 256) ++ [UInt8.ofNat n]

/-- The 16 bytes of the identifier. -/
def bytes (id : Uuid) : Bytes := bigEndian 16 id.toNat

/-- Marks 128 random bits as a random identifier: version 4, variant 1. -/
def ofRandom (bits : BitVec 128) : Uuid :=
  let versionMask : BitVec 128 := 0xF000#128 <<< 64
  let variantMask : BitVec 128 := 0xC#128 <<< 60
  (bits &&& ~~~versionMask &&& ~~~variantMask) ||| (0x4000#128 <<< 64) ||| (0x8#128 <<< 60)

end Uuid

end SoapMtom
