/-!
# Reading a YAML text character by character

A `Cursor` is a place in a text: what is still to come, and the line and column. Before reading,
every line break that YAML does not tell from a line feed is made one; the line and paragraph
separators stay, because scalars keep them. Skipping never leaves more than was there, and skipping
a line break leaves less, so reading line by line comes to an end.
-/

namespace SoapMtom.Yaml

/-- Whether the character ends a line, once line breaks are made alike. -/
def isBreak (c : Char) : Bool := c = '\n' || c = '\u2028' || c = '\u2029'

/-- Whether the character is a blank inside a line. -/
def isBlank (c : Char) : Bool := c = ' ' || c = '\t'

/-- Whether a text may hold the character as it is. -/
def isAllowed (c : Char) : Bool :=
  let n := c.toNat
  n = 0x9 || n = 0xA || n = 0xD || (0x20 ≤ n && n ≤ 0x7E) || n = 0x85 || (0xA0 ≤ n && n ≤ 0xD7FF) ||
    (0xE000 ≤ n && n ≤ 0xFFFD) || 0x10000 ≤ n

/-- The byte order mark, which may stand at the start of a line. -/
def byteOrderMark : Char := '\uFEFF'

/-- The text with carriage returns, pairs of one and a line feed, and next-line characters as line
feeds. -/
def alikeBreaks : List Char → List Char
  | '\r' :: '\n' :: rest => '\n' :: alikeBreaks rest
  | c :: rest => (if c = '\r' || c = '\u0085' then '\n' else c) :: alikeBreaks rest
  | [] => []

/-- Whether a word ends here: at a blank, a line break or the end. -/
def endsWord : List Char → Bool
  | [] => true
  | c :: _ => isBlank c || isBreak c

/-- Whether a line that starts so begins or ends a document. -/
def isMarker : List Char → Bool
  | '-' :: '-' :: '-' :: rest => endsWord rest
  | '.' :: '.' :: '.' :: rest => endsWord rest
  | _ => false

/-- A place in a text. -/
structure Cursor where
  rest : List Char
  line : Nat := 0
  column : Nat := 0
deriving DecidableEq, Repr

namespace Cursor

/-- The place after `n` characters of the same line. -/
def skip (c : Cursor) (n : Nat) : Cursor :=
  { c with rest := c.rest.drop n, column := c.column + n }

/-- The place after the characters that satisfy `p`, which holds of no line break. -/
def skipWhile (p : Char → Bool) (c : Cursor) : Cursor :=
  { c with rest := c.rest.dropWhile p, column := c.column + (c.rest.takeWhile p).length }

/-- The place after the blanks. -/
def skipBlanks (c : Cursor) : Cursor := c.skipWhile isBlank

/-- The place at the end of the line, if a comment starts here. -/
def skipComment (c : Cursor) : Cursor :=
  match c.rest with
  | '#' :: _ => c.skipWhile (!isBreak ·)
  | _ => c

/-- The place after a line break, if there is one here. -/
def skipBreak? (c : Cursor) : Option Cursor :=
  match c.rest with
  | d :: rest => if isBreak d then some { rest, line := c.line + 1, column := 0 } else none
  | [] => none

/-- The place of the next word of the line, or of its end. A byte order mark at the start of the
line is passed over, but takes a column; `tabs` says whether tabs count as blanks. -/
def skipToWord (tabs : Bool) (c : Cursor) : Cursor :=
  let c := if c.column = 0 && c.rest.head? = some byteOrderMark then c.skip 1 else c
  (c.skipWhile fun d => d = ' ' || (tabs && d = '\t')).skipComment

/-- The start of the next line, if only blanks and a comment stand before it. -/
def endLine? (c : Cursor) : Option Cursor :=
  let c := c.skipBlanks.skipComment
  if c.rest.isEmpty then some c else c.skipBreak?

/-- Whether the line begins or ends a document. -/
def atMarker (c : Cursor) : Bool := c.column = 0 && isMarker c.rest

/-! ## What is left to read -/

theorem length_skip_le (c : Cursor) (n : Nat) : (c.skip n).rest.length ≤ c.rest.length := by
  simp [skip]

theorem length_skipWhile_le (c : Cursor) (p : Char → Bool) :
    (c.skipWhile p).rest.length ≤ c.rest.length :=
  (List.dropWhile_suffix p).length_le

theorem length_skipComment_le (c : Cursor) : c.skipComment.rest.length ≤ c.rest.length := by
  unfold skipComment
  split
  · exact length_skipWhile_le c _
  · exact Nat.le_refl _

theorem length_skipToWord_le (c : Cursor) (tabs : Bool) :
    (c.skipToWord tabs).rest.length ≤ c.rest.length := by
  refine Nat.le_trans (length_skipComment_le _) (Nat.le_trans (length_skipWhile_le _ _) ?_)
  split
  · exact length_skip_le c 1
  · exact Nat.le_refl _

theorem length_of_skipBreak? {c d : Cursor} (h : c.skipBreak? = some d) :
    d.rest.length < c.rest.length := by
  unfold skipBreak? at h
  split at h
  · next hc =>
    split at h
    · cases h
      simp [hc]
    · cases h
  · cases h

end Cursor

end SoapMtom.Yaml
