import SoapMtom.Yaml.Scalar

/-!
# Tokens of a YAML text, and those that a word makes up

Indentation and punctuation become tokens that open and close collections. This module holds the
tokens, and the readers of the ones that consist of a word: anchors, aliases, tags and directives.
-/

namespace SoapMtom.Yaml

/-- A piece of a YAML text. -/
inductive Token where
  | version (major minor : Nat)
  /-- A handle for tags, and what it stands for. -/
  | handle (name : String) (stem : Bytes)
  | documentStart
  | documentEnd
  | blockSequenceStart
  | blockMappingStart
  | blockEnd
  | flowSequenceStart
  | flowSequenceEnd
  | flowMappingStart
  | flowMappingEnd
  | blockEntry
  | flowEntry
  | key
  | value
  | alias (name : String)
  | anchor (name : String)
  | tag (handle : String) (suffix : Bytes)
  | scalar (style : ScalarStyle) (text : String)
deriving DecidableEq, Repr

/-- Whether a name may hold the character: an ASCII letter or digit, a hyphen or an underscore. -/
def isNameChar (c : Char) : Bool := c.isAlphanum || c = '-' || c = '_'

/-! ## Anchors and aliases -/

/-- The characters besides blanks and line breaks that may follow the name of an anchor. -/
def afterName : List Char := ['?', ':', ',', ']', '\x7d', '%', '@', Char.ofNat 96]

/-- Reads the name of an anchor. -/
def name? (c : Cursor) : Option (String × Cursor) :=
  let name := c.rest.takeWhile isNameChar
  let after := c.skipWhile isNameChar
  let stops := endsWord after.rest || (after.rest.head?.map afterName.contains).getD false
  if !name.isEmpty && stops then some (String.ofList name, after) else none

/-! ## Tags -/

/-- The characters of a tag besides those of a name. -/
def uriMarks : List Char := ";/?:@&=+$.!~*()%\x27".toList

/-- The characters that a tag in angle brackets may hold too. -/
def verbatimMarks : List Char := [',', '[', ']']

/-- Whether a tag may hold the character. -/
def isUriChar (verbatim : Bool) (c : Char) : Bool :=
  isNameChar c || uriMarks.contains c || (verbatim && verbatimMarks.contains c)

/-- How many bytes continue a sequence that starts with this one, going by its highest bits. -/
def followers? (first : UInt8) : Option Nat :=
  if first < 0x80 then some 0
  else if first < 0xC0 then none
  else if first < 0xE0 then some 1
  else if first < 0xF0 then some 2
  else if first < 0xF8 then some 3
  else none

/-- The bytes that the characters of a tag write. A percent sign and two hexadecimal digits give one
byte, and `awaited` such bytes have to come next to complete a sequence. Sequences have the shape of
UTF-8, but need not stand for a character. -/
def uriBytes (awaited : Nat) : List Char → Option Bytes
  | '%' :: a :: b :: rest => do
    let byte := UInt8.ofNat ((← Xml.digitValue? 16 a) * 16 + (← Xml.digitValue? 16 b))
    match awaited with
    | 0 => (uriBytes (← followers? byte) rest).map (byte :: ·)
    | n + 1 =>
      if Utf8.isContinuation byte then (uriBytes n rest).map (byte :: ·) else none
  | '%' :: _ => none
  | c :: rest =>
    if awaited = 0 then (uriBytes 0 rest).map (String.utf8EncodeChar c ++ ·) else none
  | [] => if awaited = 0 then some [] else none

/-- Reads the rest of a tag. Something has to be there, or before it. What follows a zero byte does
not count. -/
def uri? (verbatim afterHandle : Bool) (c : Cursor) : Option (Bytes × Cursor) := do
  let written := c.rest.takeWhile (isUriChar verbatim)
  let bytes ← uriBytes 0 written
  if written.isEmpty && !afterHandle then none
  else some (bytes.takeWhile (· ≠ 0), c.skipWhile (isUriChar verbatim))

/-- Reads an exclamation mark, the name after it, and a second exclamation mark if there is one. -/
def handle? (c : Cursor) : Option (String × Cursor) :=
  match c.rest with
  | '!' :: rest =>
    let name := rest.takeWhile isNameChar
    let after := (c.skip 1).skipWhile isNameChar
    match after.rest with
    | '!' :: _ => some (String.ofList ('!' :: name ++ ['!']), after.skip 1)
    | _ => some (String.ofList ('!' :: name), after)
  | _ => none

/-- Reads a tag: in angle brackets, after a handle, or after a single exclamation mark, which alone
is a tag too. -/
def tag? (flow : Bool) (c : Cursor) : Option (Token × Cursor) := do
  let (token, c) ←
    match c.rest with
    | '!' :: '<' :: _ => do
      let (suffix, c) ← uri? true false (c.skip 2)
      match c.rest with
      | '>' :: _ => some (Token.tag "" suffix, c.skip 1)
      | _ => none
    | _ => do
      let (handle, after) ← handle? c
      if 2 ≤ handle.length && handle.toList.getLast? = some '!' then
        let (suffix, after) ← uri? false false after
        some (Token.tag handle suffix, after)
      else
        let (rest, after) ← uri? false true after
        let suffix := Utf8.encode (String.ofList (handle.toList.drop 1)) ++ rest
        let single := Token.tag "" (Utf8.encode "!")
        some (if suffix.isEmpty then single else Token.tag "!" suffix, after)
  if endsWord c.rest || (flow && c.rest.head? = some ',') then some (token, c) else none

/-! ## Directives -/

/-- Reads a number of at most nine digits. -/
def versionNumber? (c : Cursor) : Option (Nat × Cursor) :=
  let digits := c.rest.takeWhile Char.isDigit
  if digits.isEmpty || 9 < digits.length then none
  else some (digits.foldl (fun n d => n * 10 + (d.toNat - 48)) 0, c.skipWhile Char.isDigit)

/-- Reads the version of YAML. -/
def version? (c : Cursor) : Option (Token × Cursor) := do
  let (major, c) ← versionNumber? c
  match c.rest with
  | '.' :: _ =>
    let (minor, c) ← versionNumber? (c.skip 1)
    some (.version major minor, c)
  | _ => none

/-- Reads a handle and what it stands for. -/
def handleDirective? (c : Cursor) : Option (Token × Cursor) := do
  let (name, c) ← handle? c
  if name ≠ "!" && (name.length < 2 || name.toList.getLast? ≠ some '!') then none
  else
    match c.rest with
    | d :: _ =>
      if isBlank d then
        let (stem, c) ← uri? true false c.skipBlanks
        if endsWord c.rest then some (.handle name stem, c) else none
      else none
    | [] => none

/-- Reads a directive, from behind the percent sign to the end of the line. -/
def directive? (c : Cursor) : Option (Token × Cursor) := do
  let name := String.ofList (c.rest.takeWhile isNameChar)
  let c := c.skipWhile isNameChar
  if !endsWord c.rest then none
  else
    let (token, c) ←
      if name = "YAML" then version? c.skipBlanks
      else if name = "TAG" then handleDirective? c.skipBlanks
      else none
    let c ← c.endLine?
    some (token, c)

end SoapMtom.Yaml
