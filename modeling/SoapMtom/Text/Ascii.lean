/-!
# ASCII letters, digits, case and blanks

Protocol keywords compare without regard to the case of ASCII letters, and only those: every other
character stands for itself. Encoded bytes may be broken up by ASCII blanks.
-/

namespace SoapMtom.Text

/-- Whether the byte is a blank: space, tab, line feed, form feed or carriage return. -/
def isAsciiBlank (b : UInt8) : Bool := b = 32 || b = 9 || b = 10 || b = 12 || b = 13

/-- The character in lower case, if it is an ASCII capital. -/
def lowerChar (c : Char) : Char :=
  if 'A' ≤ c && c ≤ 'Z' then Char.ofNat (c.toNat + 32) else c

/-- The text with ASCII capitals in lower case. -/
def lower (s : String) : String := String.ofList (s.toList.map lowerChar)

/-- Lower-case hexadecimal digits of a number, with no leading zero. -/
def hex (n : Nat) : String := String.ofList (Nat.toDigits 16 n)

end SoapMtom.Text
