/-!
# Sets of characters given by ranges of code points

A Unicode property is a finite list of ranges; a character has the property when one of them holds
its code point.
-/

namespace SoapMtom.Text

/-- A range of code points, both ends included. -/
abbrev CodePointRange := Nat × Nat

end SoapMtom.Text

/-- Whether one of the ranges holds the character's code point. -/
def Char.within (c : Char) (ranges : List SoapMtom.Text.CodePointRange) : Bool :=
  ranges.any fun (first, last) => first ≤ c.toNat && c.toNat ≤ last
