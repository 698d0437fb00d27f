import SoapMtom.Bytes

/-!
# UTF-8: text as bytes, and bytes as text

`encode` writes a text; `decode` reads one back and says where and how the bytes are ill-formed;
`lossy` reads every byte string, with U+FFFD for each ill-formed piece. Main statements:

> `decode_encode`, `lossy_encode`: what `encode` wrote is read back as it was.
-/

namespace SoapMtom.Utf8

/-- Why bytes are not text: a sequence that no continuation could mend, or an input that stops
inside a sequence. Offsets count bytes from the start. -/
inductive Malformed where
  | invalid (offset length : Nat)
  | incomplete (offset : Nat)
deriving DecidableEq, Repr

/-- The wording of the two failures. -/
def Malformed.message : Malformed → String
  | .invalid offset length => s!"invalid utf-8 sequence of {length} bytes from index {offset}"
  | .incomplete offset => s!"incomplete utf-8 byte sequence from index {offset}"

/-- The bytes of a text. -/
def encode (s : String) : Bytes := s.toList.flatMap String.utf8EncodeChar

/-- The character whose encoding stands at the head of the bytes. -/
def head? (bs : Bytes) : Option Char := (bs.take 4).toByteArray.utf8DecodeChar? 0

/-- How many continuation bytes the lead byte asks for; no sequence starts with a byte that asks
for none. -/
def continuations (lead : UInt8) : Nat :=
  if 0xC2 ≤ lead && lead ≤ 0xDF then 1
  else if 0xE0 ≤ lead && lead ≤ 0xEF then 2
  else if 0xF0 ≤ lead && lead ≤ 0xF4 then 3
  else 0

/-- Whether a byte may continue a sequence. -/
def isContinuation (b : UInt8) : Bool := 0x80 ≤ b && b ≤ 0xBF

/-- Whether `b` may follow the lead byte: four lead bytes narrow the range, which shuts out
overlong forms, surrogates and code points past U+10FFFF. -/
def maySecond (lead b : UInt8) : Bool :=
  if lead == 0xE0 then 0xA0 ≤ b && b ≤ 0xBF
  else if lead == 0xED then 0x80 ≤ b && b ≤ 0x9F
  else if lead == 0xF0 then 0x90 ≤ b && b ≤ 0xBF
  else if lead == 0xF4 then 0x80 ≤ b && b ≤ 0x8F
  else isContinuation b

/-- Counts on from `seen` good bytes: the length of the ill-formed piece, or `none` when the input
ends before the `wanted` continuation bytes are complete. -/
def brokenAfter (seen : Nat) : Nat → Bytes → Option Nat
  | 0, _ => none
  | _ + 1, [] => none
  | wanted + 1, b :: rest =>
    if isContinuation b then brokenAfter (seen + 1) wanted rest else some seen

/-- The length of the ill-formed piece at the head of bytes that start with no character; `none`
when the input ends inside a sequence that is good so far. -/
def brokenLength : Bytes → Option Nat
  | [] => none
  | lead :: rest =>
    match continuations lead, rest with
    | 0, _ => some 1
    | _ + 1, [] => none
    | wanted + 1, b :: rest =>
      if maySecond lead b then brokenAfter 2 wanted rest else some 1

/-- Reads characters from `bs`, which starts `offset` bytes into the input; `done` holds the
characters read before, last one first. -/
def decodeFrom (offset : Nat) (done : List Char) (bs : Bytes) : Except Malformed (List Char) :=
  match bs with
  | [] => .ok done.reverse
  | b :: rest =>
    match head? (b :: rest) with
    | some c => decodeFrom (offset + c.utf8Size) (c :: done) ((b :: rest).drop c.utf8Size)
    | none =>
      match brokenLength (b :: rest) with
      | some length => .error (.invalid offset length)
      | none => .error (.incomplete offset)
termination_by bs.length
decreasing_by
  have := c.utf8Size_pos
  simp only [List.length_drop, List.length_cons]
  omega

/-- The text that the bytes encode. -/
def decode (bs : Bytes) : Except Malformed String :=
  (decodeFrom 0 [] bs).map String.ofList

/-- Reads characters from `bs` with U+FFFD for every ill-formed piece; `done` holds the characters
read before, last one first. -/
def lossyFrom (done : List Char) (bs : Bytes) : List Char :=
  match bs with
  | [] => done.reverse
  | b :: rest =>
    match head? (b :: rest) with
    | some c => lossyFrom (c :: done) ((b :: rest).drop c.utf8Size)
    | none =>
      match brokenLength (b :: rest) with
      | some length => lossyFrom ('\uFFFD' :: done) (rest.drop (length - 1))
      | none => ('\uFFFD' :: done).reverse
termination_by bs.length
decreasing_by
  · have := c.utf8Size_pos
    simp only [List.length_drop, List.length_cons]
    omega
  · simp only [List.length_drop, List.length_cons]
    omega

/-- The text of any bytes, ill-formed pieces replaced by U+FFFD. -/
def lossy (bs : Bytes) : String := String.ofList (lossyFrom [] bs)

/-! ## Reading back what was written -/

theorem head?_encode (c : Char) (rest : Bytes) :
    head? (String.utf8EncodeChar c ++ rest) = some c := by
  unfold head?
  have hlen : (String.utf8EncodeChar c).length ≤ 4 := by
    rw [String.length_utf8EncodeChar]; exact c.utf8Size_le_four
  rw [List.take_append, List.take_of_length_le hlen, List.toByteArray_append]
  exact ByteArray.utf8DecodeChar?_utf8EncodeChar_append

private theorem drop_encode (c : Char) (rest : Bytes) :
    (String.utf8EncodeChar c ++ rest).drop c.utf8Size = rest := by
  rw [← String.length_utf8EncodeChar c, List.drop_left]

theorem decodeFrom_encode (cs done : List Char) (offset : Nat) :
    decodeFrom offset done (cs.flatMap String.utf8EncodeChar) = .ok (done.reverse ++ cs) := by
  induction cs generalizing done offset with
  | nil => simp [decodeFrom]
  | cons c cs ih =>
    rw [List.flatMap_cons]
    obtain ⟨b, rest, hb⟩ := List.exists_cons_of_ne_nil (l := String.utf8EncodeChar c ++
      cs.flatMap String.utf8EncodeChar) (by simp)
    rw [hb, decodeFrom, ← hb, head?_encode]
    simp only [drop_encode]
    rw [ih]
    simp

theorem lossyFrom_encode (cs done : List Char) :
    lossyFrom done (cs.flatMap String.utf8EncodeChar) = done.reverse ++ cs := by
  induction cs generalizing done with
  | nil => simp [lossyFrom]
  | cons c cs ih =>
    rw [List.flatMap_cons]
    obtain ⟨b, rest, hb⟩ := List.exists_cons_of_ne_nil (l := String.utf8EncodeChar c ++
      cs.flatMap String.utf8EncodeChar) (by simp)
    rw [hb, lossyFrom, ← hb, head?_encode]
    simp only [drop_encode]
    rw [ih]
    simp

/-- Written text is read back. -/
@[simp] theorem decode_encode (s : String) : decode (encode s) = .ok s := by
  simp [decode, encode, decodeFrom_encode, Except.map]

/-- A lossy reading of written text loses nothing. -/
@[simp] theorem lossy_encode (s : String) : lossy (encode s) = s := by
  simp [lossy, encode, lossyFrom_encode]

end SoapMtom.Utf8
