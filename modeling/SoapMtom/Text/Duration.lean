/-!
# Spans of time in messages

A span is shown in the largest unit of seconds, milliseconds, microseconds and nanoseconds that it
fills, with as many decimal places as it needs: `1.5ms`, `30s`, `0ns`.
-/

namespace SoapMtom.Text

/-- The decimal places of `rest`, a fraction counted in units of which `10 ^ places` make a whole,
without zeros at the end. -/
def decimals (places rest : Nat) : List Char :=
  let digits := Nat.toDigits 10 rest
  let filled := List.replicate (places - digits.length) '0' ++ digits
  (filled.reverse.dropWhile (· = '0')).reverse

/-- A number of units, `rest` of them counted as `places` decimal places. -/
def showDecimal (whole places rest : Nat) (unit : String) : String :=
  if rest = 0 then toString whole ++ unit
  else toString whole ++ "." ++ String.ofList (decimals places rest) ++ unit

/-- A span of so many nanoseconds. -/
def showNanoseconds (n : Nat) : String :=
  if 1000000000 ≤ n then showDecimal (n / 1000000000) 9 (n % 1000000000) "s"
  else if 1000000 ≤ n then showDecimal (n / 1000000) 6 (n % 1000000) "ms"
  else if 1000 ≤ n then showDecimal (n / 1000) 3 (n % 1000) "µs"
  else showDecimal n 0 0 "ns"

end SoapMtom.Text
