import SoapMtom.Yaml.Token

/-!
# From layout to tokens

Outside brackets indentation decides which collection a line belongs to, and a key is known as one
only by the colon behind it. `Token.scan` therefore remembers where a key may have started; when the
colon comes, the tokens that open a mapping and announce a key are put in at that place. A key that
may start there has to end on its line, within 1024 bytes.
-/

namespace SoapMtom.Yaml

/-- Where a key may have started. -/
structure PossibleKey where
  /-- The number of tokens before it. -/
  place : Nat
  start : Cursor
  /-- Whether nothing but a key can stand there. -/
  required : Bool
deriving DecidableEq, Repr

/-- The number of bytes that the longest key without an announcement takes. -/
def maxKeyLength : Nat := 1024

/-- What is known at some place of a text. -/
structure Layout where
  cursor : Cursor
  /-- The tokens so far. -/
  tokens : Array Token := #[]
  /-- The first column inside the innermost block collection. -/
  margin : Nat := 0
  /-- The margins around it, innermost first. -/
  outer : List Nat := []
  /-- Whether a key may start here. -/
  keyAllowed : Bool := true
  /-- Where a key may have started outside brackets. -/
  key : Option PossibleKey := none
  /-- Where one may have started inside each pair of brackets, innermost first. -/
  flowKeys : List (Option PossibleKey) := []
deriving Repr

namespace Layout

/-- Whether the place is inside brackets. -/
def inFlow (l : Layout) : Bool := !l.flowKeys.isEmpty

/-- The layout with one more token. -/
def emit (l : Layout) (t : Token) : Layout := { l with tokens := l.tokens.push t }

/-- The layout some characters further on. -/
def skip (l : Layout) (n : Nat) : Layout := { l with cursor := l.cursor.skip n }

/-- Where a key may have started inside the innermost brackets, or outside all of them. -/
def possibleKey (l : Layout) : Option PossibleKey :=
  match l.flowKeys with
  | [] => l.key
  | k :: _ => k

/-- Sets that place. -/
def setKey (l : Layout) (k : Option PossibleKey) : Layout :=
  match l.flowKeys with
  | [] => { l with key := k }
  | _ :: rest => { l with flowKeys := k :: rest }

/-! ## Keys -/

/-- Forgets where a key may have started, unless there has to be one. -/
def dropKey (l : Layout) : Option Layout :=
  match l.possibleKey with
  | some k => if k.required then none else some (l.setKey none)
  | none => some l

/-- Notes that a key may start here, if it may. -/
def saveKey (l : Layout) : Option Layout :=
  if l.keyAllowed then do
    let k : PossibleKey :=
      { place := l.tokens.size
        start := l.cursor
        required := !l.inFlow && l.margin = l.cursor.column + 1 }
    let l ← l.dropKey
    pure (l.setKey (some k))
  else some l

/-- Whether a key that started there may still end here: on the same line, and not too far off. -/
def reaches (l : Layout) (k : PossibleKey) : Bool :=
  let written := k.start.rest.take (l.cursor.column - k.start.column)
  k.start.line = l.cursor.line && Xml.byteLength written ≤ maxKeyLength

/-- The key that ends here, if one may have started. -/
def endedKey (l : Layout) : Option (Option PossibleKey) :=
  match l.possibleKey with
  | none => some none
  | some k =>
    if l.reaches k then some (some k)
    else if k.required then none
    else some none

/-! ## Blocks -/

/-- Closes the blocks that do not reach to the column; none are closed inside brackets. -/
def closeTo (column : Nat) (l : Layout) : Layout :=
  if l.inFlow then l else go l.outer l
where
  /-- Closes blocks; these are the margins around the innermost one. -/
  go : List Nat → Layout → Layout
    | [], l => l
    | m :: outer, l =>
      if column + 1 < l.margin then
        go outer { l with outer, margin := m, tokens := l.tokens.push .blockEnd }
      else l

/-- Closes all blocks. -/
def closeAll (l : Layout) : Layout :=
  if l.inFlow then l
  else
    { l with
      outer := []
      margin := 0
      tokens := l.tokens ++ Array.replicate l.outer.length .blockEnd }

/-- Opens a block at the column, unless one reaches there or the place is inside brackets. The token
goes to `place`. -/
def openAt (l : Layout) (column place : Nat) (t : Token) : Layout :=
  if !l.inFlow && l.margin ≤ column then
    { l with
      outer := l.margin :: l.outer
      margin := column + 1
      tokens := l.tokens.insertIdxIfInBounds place t }
  else l

/-- Opens a block here. -/
def openHere (l : Layout) (t : Token) : Layout := l.openAt l.cursor.column l.tokens.size t

/-! ## One token -/

/-- Skips blanks, comments and line breaks. A tab counts as a blank where no key may start. -/
def skipToToken (l : Layout) : Layout :=
  let c := l.cursor.skipToWord (l.inFlow || !l.keyAllowed)
  match _h : c.skipBreak? with
  | some next => skipToToken { l with cursor := next, keyAllowed := l.keyAllowed || !l.inFlow }
  | none => { l with cursor := c }
termination_by l.cursor.rest.length
decreasing_by
  exact Nat.lt_of_lt_of_le (Cursor.length_of_skipBreak? _h) (Cursor.length_skipToWord_le _ _)

/-- A directive. -/
def directive (l : Layout) : Option Layout := do
  let l ← l.closeAll.dropKey
  let (t, c) ← directive? (l.cursor.skip 1)
  pure { l.emit t with cursor := c, keyAllowed := false }

/-- The start or the end of a document. -/
def marker (l : Layout) (t : Token) : Option Layout := do
  let l ← l.closeAll.dropKey
  pure { (l.emit t).skip 3 with keyAllowed := false }

/-- An opening bracket. -/
def openFlow (l : Layout) (t : Token) : Option Layout := do
  let l := (← l.saveKey).emit t |>.skip 1
  pure { l with flowKeys := none :: l.flowKeys, keyAllowed := true }

/-- A closing bracket. -/
def closeFlow (l : Layout) (t : Token) : Option Layout := do
  let l := (← l.dropKey).emit t |>.skip 1
  pure { l with flowKeys := l.flowKeys.drop 1, keyAllowed := false }

/-- A comma between brackets. -/
def flowEntry (l : Layout) : Option Layout := do
  let l ← l.dropKey
  pure { (l.emit .flowEntry).skip 1 with keyAllowed := true }

/-- A hyphen before an item. -/
def blockEntry (l : Layout) : Option Layout := do
  if !l.inFlow && !l.keyAllowed then none
  let l ← (l.openHere .blockSequenceStart).dropKey
  pure { (l.emit .blockEntry).skip 1 with keyAllowed := true }

/-- A question mark before a key. -/
def announcedKey (l : Layout) : Option Layout := do
  if !l.inFlow && !l.keyAllowed then none
  let l := (← (l.openHere .blockMappingStart).dropKey).emit .key |>.skip 1
  pure { l with keyAllowed := !l.inFlow }

/-- A colon before a value. -/
def value (l : Layout) : Option Layout := do
  match ← l.endedKey with
  | some k =>
    let l := { l with tokens := l.tokens.insertIdxIfInBounds k.place .key }
    let l := (l.openAt k.start.column k.place .blockMappingStart).setKey none
    pure { (l.emit .value).skip 1 with keyAllowed := false }
  | none =>
    if !l.inFlow && !l.keyAllowed then none
    let l := ((l.setKey none).openHere .blockMappingStart).emit .value |>.skip 1
    pure { l with keyAllowed := !l.inFlow }

/-- An alias or an anchor. -/
def named (l : Layout) (token : String → Token) : Option Layout := do
  let l ← l.saveKey
  let (name, c) ← name? (l.cursor.skip 1)
  pure { l.emit (token name) with cursor := c, keyAllowed := false }

/-- A tag. -/
def tag (l : Layout) : Option Layout := do
  let l ← l.saveKey
  let (t, c) ← tag? l.inFlow l.cursor
  pure { l.emit t with cursor := c, keyAllowed := false }

/-- A block scalar. -/
def blockScalar (l : Layout) (folded : Bool) : Option Layout := do
  let l ← l.dropKey
  let s ← block folded l.margin (l.cursor.skip 1)
  let style : ScalarStyle := if folded then .folded else .literal
  pure { l.emit (.scalar style s.text) with cursor := s.after, keyAllowed := true }

/-- A quoted scalar. -/
def quotedScalar (l : Layout) (double : Bool) : Option Layout := do
  let l ← l.saveKey
  let s ← quoted double (l.cursor.skip 1)
  let style : ScalarStyle := if double then .doubleQuoted else .singleQuoted
  pure { l.emit (.scalar style s.text) with cursor := s.after, keyAllowed := false }

/-- A plain scalar. -/
def plainScalar (l : Layout) : Option Layout := do
  let l ← l.saveKey
  let s ← plain l.inFlow l.margin l.cursor
  pure { l.emit (.scalar .plain s.text) with cursor := s.after, keyAllowed := s.broken }

/-- The characters with which no plain scalar starts. -/
def notPlain : List Char := "-?:,[]#&*!|>\x27\x22%@\x7b\x7d".toList ++ [Char.ofNat 96]

/-- Whether a plain scalar starts with these characters. -/
def startsPlain (flow : Bool) : List Char → Bool
  | [] => false
  | c :: rest =>
    (!isBlank c && !isBreak c && !notPlain.contains c) ||
      (c = '-' && !(rest.head?.map isBlank).getD false) ||
      (!flow && (c = '?' || c = ':') && !endsWord rest)

/-- Reads the next token, at a place where one starts. -/
def next (l : Layout) : Option Layout :=
  let cs := l.cursor.rest
  let word := endsWord (cs.drop 1)
  if l.cursor.column = 0 && cs.head? = some '%' then l.directive
  else if l.cursor.atMarker then
    l.marker (if cs.head? = some '-' then .documentStart else .documentEnd)
  else
    match cs.head? with
    | none => none
    | some '[' => l.openFlow .flowSequenceStart
    | some '\x7b' => l.openFlow .flowMappingStart
    | some ']' => l.closeFlow .flowSequenceEnd
    | some '\x7d' => l.closeFlow .flowMappingEnd
    | some ',' => l.flowEntry
    | some '*' => l.named .alias
    | some '&' => l.named .anchor
    | some '!' => l.tag
    | some '\x27' => l.quotedScalar false
    | some '\x22' => l.quotedScalar true
    | some c =>
      if c = '-' && word then l.blockEntry
      else if c = '?' && (l.inFlow || word) then l.announcedKey
      else if c = ':' && (l.inFlow || word) then l.value
      else if c = '|' && !l.inFlow then l.blockScalar false
      else if c = '>' && !l.inFlow then l.blockScalar true
      else if startsPlain l.inFlow cs then l.plainScalar
      else none

/-- Reads tokens to the end; there are at most `count` of them. -/
def run : Nat → Layout → Option Layout
  | 0, _ => none
  | count + 1, l =>
    let l := l.skipToToken
    if l.cursor.rest.isEmpty then l.closeAll.dropKey
    else
      match (closeTo l.cursor.column l).next with
      | none => none
      | some l => run count l

end Layout

/-- The tokens of a text, or nothing where it is malformed. -/
def Token.scan (text : String) : Option (List Token) :=
  if text.toList.all isAllowed then
    let cs := alikeBreaks text.toList
    (Layout.run (cs.length + 1) { cursor := { rest := cs } }).map (·.tokens.toList)
  else none

end SoapMtom.Yaml
