import SoapMtom.Text.Ascii
import SoapMtom.Text.Blank
import SoapMtom.Text.Utf8

/-!
# Content ids in references

A reference names an attachment by a `cid:` URL, in which a content id is written with percent signs
for the bytes that a URL cannot carry. `encode` writes the id, `decode` reads it and keeps whatever
is no escape as it is.
-/

namespace SoapMtom.ContentId

/-- The bytes other than ASCII letters and digits that stand for themselves in a URL. -/
def plainBytes : Bytes := Utf8.encode "@.-_~!$&'()*+,;=:"

/-- Whether the byte is an ASCII letter or digit. -/
def isAlphanumeric (b : UInt8) : Bool :=
  (48 ≤ b && b ≤ 57) || (65 ≤ b && b ≤ 90) || (97 ≤ b && b ≤ 122)

/-- Whether the byte stands for itself in a URL. -/
def isPlain (b : UInt8) : Bool := isAlphanumeric b || plainBytes.contains b

/-- The upper-case hexadecimal digit of a number below 16. -/
def hexDigit (n : Nat) : Char := Char.ofNat (if n < 10 then 48 + n else 55 + n)

/-- A byte as it stands in a URL. -/
def encodeByte (b : UInt8) : List Char :=
  if isPlain b then [Char.ofNat b.toNat]
  else ['%', hexDigit (b.toNat / 16), hexDigit (b.toNat % 16)]

/-- The content id as it stands in a URL. -/
def encode (id : String) : String := String.ofList ((Utf8.encode id).flatMap encodeByte)

/-- The value of a hexadecimal digit in either case. -/
def hexValue? (b : UInt8) : Option Nat :=
  if 48 ≤ b && b ≤ 57 then some (b.toNat - 48)
  else if 65 ≤ b && b ≤ 70 then some (b.toNat - 55)
  else if 97 ≤ b && b ≤ 102 then some (b.toNat - 87)
  else none

/-- The byte that two characters after a percent sign write: two hexadecimal digits, or a plus sign
and one digit. -/
def escapedByte? (a b : UInt8) : Option UInt8 :=
  match hexValue? a, hexValue? b with
  | some high, some low => some (UInt8.ofNat (high * 16 + low))
  | none, some low => if a = 43 then some (UInt8.ofNat low) else none
  | _, none => none

/-- The bytes with every escape read; a percent sign that starts none stays. -/
def decodeBytes : Bytes → Bytes
  | 37 :: a :: b :: rest =>
    match escapedByte? a b with
    | some byte => byte :: decodeBytes rest
    | none => 37 :: decodeBytes (a :: b :: rest)
  | b :: rest => b :: decodeBytes rest
  | [] => []

/-- The content id that stands in a URL. -/
def decode (s : String) : String := Utf8.lossy (decodeBytes (Utf8.encode s))

/-- The content id that a reference names, if it is a `cid:` URL. Blanks around the URL do not
count, and the scheme may be in any case. -/
def ofReference? (href : String) : Option String :=
  match Text.trimChars href.toList with
  | a :: b :: c :: d :: rest =>
    if [a, b, c, d].map Text.lowerChar = "cid:".toList then some (decode (String.ofList rest))
    else none
  | _ => none

end SoapMtom.ContentId
