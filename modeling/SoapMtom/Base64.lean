import SoapMtom.Bytes

/-!
# Base64 with padding

The standard alphabet, `=` to fill the last group of four. Reading is strict: the padding must be
there, the bits that the last symbol does not use must be zero, and a failure names the symbol and
its offset. `encode` writes groups of four, `decode` reads them back.
-/

namespace SoapMtom.Base64

/-- Why bytes are not base64. Offsets count symbols from the start. -/
inductive Malformed where
  | symbol (byte : UInt8) (offset : Nat)
  | length (symbols : Nat)
  | lastSymbol (byte : UInt8) (offset : Nat)
  | padding
deriving DecidableEq, Repr

/-- The wording of the four failures. -/
def Malformed.message : Malformed → String
  | .symbol byte offset => s!"Invalid symbol {byte.toNat}, offset {offset}."
  | .length symbols => s!"Invalid input length: {symbols}"
  | .lastSymbol byte offset => s!"Invalid last symbol {byte.toNat}, offset {offset}."
  | .padding => "Invalid padding"

/-- The byte `=`. -/
def pad : UInt8 := 61

/-- The symbol of a value below 64. -/
def symbolOf (v : Nat) : UInt8 :=
  if v < 26 then UInt8.ofNat (v + 65)
  else if v < 52 then UInt8.ofNat (v + 71)
  else if v < 62 then UInt8.ofNat (v - 4)
  else if v = 62 then 43
  else 47

/-- The value of a symbol, below 64. -/
def valueOf? (b : UInt8) : Option Nat :=
  if 65 ≤ b && b ≤ 90 then some (b.toNat - 65)
  else if 97 ≤ b && b ≤ 122 then some (b.toNat - 71)
  else if 48 ≤ b && b ≤ 57 then some (b.toNat + 4)
  else if b = 43 then some 62
  else if b = 47 then some 63
  else none

/-- The symbols of the bytes: three bytes make four symbols, and a last group of one or two bytes
is filled with `=`. -/
def encode : Bytes → Bytes
  | [] => []
  | [a] =>
    let n := a.toNat
    [symbolOf (n / 4), symbolOf (n % 4 * 16), pad, pad]
  | [a, b] =>
    let n := a.toNat * 256 + b.toNat
    [symbolOf (n / 1024), symbolOf (n / 16 % 64), symbolOf (n % 16 * 4), pad]
  | a :: b :: c :: rest =>
    let n := (a.toNat * 256 + b.toNat) * 256 + c.toNat
    symbolOf (n / 262144) :: symbolOf (n / 4096 % 64) :: symbolOf (n / 64 % 64) ::
      symbolOf (n % 64) :: encode rest

/-- The symbols as text. -/
def encodeText (bs : Bytes) : String :=
  String.ofList ((encode bs).map fun b => Char.ofNat b.toNat)

/-- The symbols of the last group, with their values, up to the padding; and how many `=` follow.
`offset` is where the group starts. -/
def lastGroup (offset : Nat) (read : List (UInt8 × Nat)) (pads : Nat) :
    Bytes → Except Malformed (List (UInt8 × Nat) × Nat)
  | [] => .ok (read, pads)
  | b :: rest =>
    if b = pad then
      if read.length + pads < 2 then .error (.symbol b (offset + read.length + pads))
      else lastGroup offset read (pads + 1) rest
    else if pads ≠ 0 then .error (.symbol pad (offset + read.length))
    else
      match valueOf? b with
      | none => .error (.symbol b (offset + read.length))
      | some v => lastGroup offset (read ++ [(b, v)]) pads rest

/-- The bytes of the last group, which starts at `offset` and holds at most four symbols. -/
def decodeLast (offset : Nat) (bs : Bytes) : Except Malformed Bytes := do
  let (read, pads) ← lastGroup offset [] 0 bs
  if (read.length + pads) % 4 ≠ 0 && 2 ≤ read.length then throw .padding
  match read with
  | [] => if bs.isEmpty then pure [] else throw (.length offset)
  | [_] => throw (.length (offset + 1))
  | [(_, v), (b, w)] =>
    if w % 16 ≠ 0 then throw (.lastSymbol b (offset + 1))
    pure [UInt8.ofNat (v * 4 + w / 16)]
  | [(_, v), (_, w), (b, x)] =>
    if x % 4 ≠ 0 then throw (.lastSymbol b (offset + 2))
    let n := (v * 64 + w) * 64 + x
    pure [UInt8.ofNat (n / 1024), UInt8.ofNat (n / 4)]
  | (_, v) :: (_, w) :: (_, x) :: (_, y) :: _ =>
    let n := ((v * 64 + w) * 64 + x) * 64 + y
    pure [UInt8.ofNat (n / 65536), UInt8.ofNat (n / 256), UInt8.ofNat n]

/-- The value of a symbol inside the text, where no padding may stand. -/
def innerValue (offset : Nat) (b : UInt8) : Except Malformed Nat :=
  match valueOf? b with
  | some v => .ok v
  | none => .error (.symbol b offset)

/-- Reads groups of four from symbol `offset` on; `done` holds the bytes read before, last one
first. -/
def decodeFrom (offset : Nat) (done : Bytes) : Bytes → Except Malformed Bytes
  | a :: b :: c :: d :: e :: rest => do
    let v ← innerValue offset a
    let w ← innerValue (offset + 1) b
    let x ← innerValue (offset + 2) c
    let y ← innerValue (offset + 3) d
    let n := ((v * 64 + w) * 64 + x) * 64 + y
    decodeFrom (offset + 4)
      (UInt8.ofNat n :: UInt8.ofNat (n / 256) :: UInt8.ofNat (n / 65536) :: done) (e :: rest)
  | bs => do
    let last ← decodeLast offset bs
    pure (done.reverse ++ last)

/-- The bytes that the symbols stand for. A single symbol left over at the end that is no symbol at
all is reported first: it is most often a stray line end. -/
def decode (bs : Bytes) : Except Malformed Bytes :=
  match bs.getLast? with
  | some b =>
    if bs.length % 4 = 1 && b ≠ pad && (valueOf? b).isNone then
      .error (.symbol b (bs.length - 1))
    else decodeFrom 0 [] bs
  | none => decodeFrom 0 [] bs

end SoapMtom.Base64
