import SoapMtom.Mime.Framing
import SoapMtom.Text.Blank
import SoapMtom.Text.Split

/-!
# One part of a message

A part is a header and a content, with an empty line between them. The header has one field on a
line, and a line that starts with a blank carries on the field before it. Fields are looked up by
name; the first of a name counts.
-/

namespace SoapMtom.Mime

/-- A field of a header, its name in lower case. -/
structure HeaderField where
  name : String
  value : String
deriving DecidableEq, Repr

/-- A part of a message. -/
structure Part where
  fields : List HeaderField
  body : Bytes
deriving DecidableEq, Repr

/-- A value without blanks, and without the angle brackets around it. -/
def withoutBrackets (value : List Char) : List Char :=
  match Text.trimChars value with
  | '<' :: inner => if inner.getLast? = some '>' then inner.dropLast else '<' :: inner
  | bare => bare

namespace Part

/-- Header and content, with the empty line between them left out. The header may be missing, and
then the part starts with that line. -/
def separate? (raw : Bytes) : Option (Bytes × Bytes) :=
  match Bytes.dropPrefix? Framing.crlf raw, Bytes.dropPrefix? [Framing.lineFeed] raw with
  | some body, _ => some ([], body)
  | none, some body => some ([], body)
  | none, none =>
    (Bytes.breakOn (Framing.crlf ++ Framing.crlf) raw).or
      (Bytes.breakOn [Framing.lineFeed, Framing.lineFeed] raw)

/-- Takes in one line of a header, without its line break; `fields` holds those before it, last one
first. -/
def readLine (fields : List HeaderField) (line : List Char) :
    Except Malformed (List HeaderField) :=
  match line with
  | [] => .ok fields
  | c :: _ =>
    if c = ' ' || c = '\t' then
      match fields with
      | [] => .ok []
      | f :: before =>
        .ok ({ f with value := f.value ++ " " ++ String.ofList (Text.trimChars line) } :: before)
    else
      match Text.cutAt? ':' line with
      | none => .error (.badHeader (String.ofList line))
      | some (name, value) =>
        .ok ({ name := Text.lower (String.ofList (Text.trimChars name))
               value := String.ofList (Text.trimChars value) } :: fields)

/-- The fields of a header, in order. -/
def readFields (head : String) : Except Malformed (List HeaderField) :=
  let lines := (Text.splitAt '\n' head.toList).map (Text.dropEndWhile (· = '\r'))
  (lines.foldlM readLine []).map List.reverse

/-- Takes a part apart. -/
def read (raw : Bytes) : Except Malformed Part :=
  match separate? raw with
  | none => .error .headerUnterminated
  | some (head, body) => do
    let head ← (Utf8.decode head).mapError .headerNotText
    let fields ← readFields head
    pure { fields, body }

/-- The value of the first field of that name, which is in lower case. -/
def field? (p : Part) (name : String) : Option String :=
  (p.fields.find? (·.name = name)).map (·.value)

/-- The content id, without angle brackets; an empty one is none. -/
def contentId? (p : Part) : Option String :=
  ((p.field? "content-id").map fun id => String.ofList (withoutBrackets id.toList)).filter
    (!·.isEmpty)

/-- The content, with its transfer encoding undone. -/
def content (p : Part) : Except Malformed Bytes :=
  match (p.field? "content-transfer-encoding").map Text.lower with
  | none => .ok p.body
  | some encoding =>
    if encoding ∈ ["binary", "8bit", "7bit"] then .ok p.body
    else if encoding = "base64" then
      (Base64.decode (p.body.filter (!Text.isAsciiBlank ·))).mapError .notBase64
    else .error (.unknownEncoding encoding)

end Part

end SoapMtom.Mime
