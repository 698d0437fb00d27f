import SoapMtom.Text.Ascii
import SoapMtom.Text.GraphemeExtend
import SoapMtom.Text.Unprintable

/-!
# Quoted text in messages

A message shows foreign text between double quotes. Quotes and backslashes take a backslash, the
common controls their short names, and every character that would not show on its own stands as
its code point, as in `\u{feff}`.
-/

namespace SoapMtom.Text

/-- The fillers of Hangul: letters that keep the place of a missing one and are blank. -/
def isFiller (c : Char) : Bool := ['\u115F', '\u1160', '\u3164', '\uFFA0'].contains c

/-- The halfwidth sound marks of Katakana: they join the character before them, yet have a place of
their own. -/
def isSoundMark (c : Char) : Bool := c = '\uFF9E' || c = '\uFF9F'

/-- Whether the character would not show on its own. -/
def isHidden (c : Char) : Bool :=
  isUnprintable c || isFiller c || (isGraphemeExtend c && !isSoundMark c)

/-- One character of a quoted text. -/
def quoteChar (c : Char) : List Char :=
  if c = '\x00' then ['\\', '0']
  else if c = '\t' then ['\\', 't']
  else if c = '\n' then ['\\', 'n']
  else if c = '\r' then ['\\', 'r']
  else if c = '\\' then ['\\', '\\']
  else if c = '\x22' then ['\\', '\x22']
  else if isHidden c then
    ['\\', 'u', '\x7b'] ++ (hex c.toNat).toList ++ ['\x7d']
  else [c]

/-- The text between double quotes. -/
def quote (s : String) : String :=
  String.ofList ('\x22' :: s.toList.flatMap quoteChar ++ ['\x22'])

end SoapMtom.Text
