import SoapMtom.Xml.Entity
import SoapMtom.Yaml.Cursor

/-!
# Scalars

A scalar is a text in one of five styles: plain, between single or double quotes, or as an indented
block, which keeps its line breaks or folds them. Each reader starts behind the character that
announces the style, and gives the text and the place behind it, or nothing where the style is
broken.
-/

namespace SoapMtom.Yaml

/-- How a scalar is written. -/
inductive ScalarStyle where
  | plain
  | singleQuoted
  | doubleQuoted
  | literal
  | folded
deriving DecidableEq, Repr

/-! ## Blanks and line breaks inside a scalar -/

/-- The blanks and line breaks between two words, last one first. -/
structure Gap where
  blanks : List Char := []
  breaks : List Char := []
  /-- Whether the first line break is taken back by a backslash before it. -/
  escaped : Bool := false
deriving DecidableEq, Repr

namespace Gap

/-- Whether the gap reaches another line. -/
def isBroken (g : Gap) : Bool := g.escaped || !g.breaks.isEmpty

/-- Whether nothing is in the gap. -/
def isEmpty (g : Gap) : Bool := g.blanks.isEmpty && !g.isBroken

/-- The gap with one more blank; on a new line blanks do not count. -/
def blank (g : Gap) (c : Char) : Gap := if g.isBroken then g else { g with blanks := c :: g.blanks }

/-- The gap with one more line break; blanks before it do not count. -/
def lineBreak (g : Gap) (c : Char) : Gap := { g with blanks := [], breaks := c :: g.breaks }

/-- The text that the gap stands for, last character first: a single line feed becomes a space, and
of several the first is dropped. -/
def text (g : Gap) : List Char :=
  if g.isBroken then
    match g.escaped, g.breaks.reverse with
    | false, ['\n'] => [' ']
    | false, '\n' :: others => others.reverse
    | _, _ => g.breaks
  else g.blanks

end Gap

/-- A scalar that was read: its text, and the place behind it. -/
structure ReadScalar where
  text : String
  after : Cursor
  /-- Whether the place is on a later line than the last word. -/
  broken : Bool := false
deriving DecidableEq, Repr

/-- The scalar of these characters, last one first, with that gap behind it. -/
def ReadScalar.of (text : List Char) (gap : Gap) (after : Cursor) : ReadScalar :=
  { text := String.ofList text.reverse, after, broken := gap.isBroken }

/-! ## Plain scalars -/

/-- The characters that structure a collection between brackets. -/
def flowMarks : List Char := [',', '[', ']', '\x7b', '\x7d']

/-- Whether a plain scalar ends before these characters, whatever stands before them. -/
def endsPlain (flow : Bool) : List Char → Bool
  | ':' :: rest => endsWord rest
  | c :: _ => flow && flowMarks.contains c
  | [] => true

/-- Whether a colon stands here before a mark that makes it ambiguous. -/
def isAmbiguousColon : List Char → Bool
  | ':' :: c :: _ => c = '?' || flowMarks.contains c
  | _ => false

/-- Reads a plain scalar from a place in line `line` and column `column`. `text` holds the
characters read before, last one first, and `gap` what stands behind them. Outside brackets the
scalar ends before a line that starts left of column `margin`. -/
def plainFrom (flow : Bool) (margin line column : Nat) (text : List Char) (gap : Gap) :
    List Char → Option ReadScalar
  | [] =>
    some (.of text gap { rest := [], line, column })
  | c :: rest =>
    if isBlank c then
      if gap.isBroken && c = '\t' && column < margin then none
      else plainFrom flow margin line (column + 1) text (gap.blank c) rest
    else if isBreak c then plainFrom flow margin (line + 1) 0 text (gap.lineBreak c) rest
    else
      let left := !flow && column < margin
      let marker := column = 0 && isMarker (c :: rest)
      let here : Cursor := { rest := c :: rest, line, column }
      if !gap.isEmpty && (left || marker || c = '#') then some (.of text gap here)
      else if flow && isAmbiguousColon (c :: rest) then none
      else if endsPlain flow (c :: rest) then some (.of text gap here)
      else plainFrom flow margin line (column + 1) (c :: gap.text ++ text) {} rest

/-- Reads a plain scalar. -/
def plain (flow : Bool) (margin : Nat) (c : Cursor) : Option ReadScalar :=
  plainFrom flow margin c.line c.column [] {} c.rest

/-! ## Quoted scalars -/

/-- The characters that follow a backslash and stand for another one. -/
def namedEscapes : List (Char × Char) :=
  [('0', '\x00'), ('a', '\x07'), ('b', '\x08'), ('t', '\t'), ('\t', '\t'), ('n', '\n'),
    ('v', '\x0B'), ('f', '\x0C'), ('r', '\r'), ('e', '\x1B'), (' ', ' '), ('\x22', '\x22'),
    ('/', '/'), ('\\', '\\'), ('N', '\u0085'), ('_', '\u00A0'), ('L', '\u2028'), ('P', '\u2029')]

/-- The character whose code `digits` hexadecimal digits give. -/
def hexChar? (digits : Nat) (cs : List Char) : Option Char :=
  let taken := cs.take digits
  if taken.length = digits && taken.all (fun c => (Xml.digitValue? 16 c).isSome) then
    let code := taken.foldl (fun n c => n * 16 + (Xml.digitValue? 16 c).getD 0) 0
    if h : code.isValidChar then some (Char.ofNatAux code h) else none
  else none

/-- The character that an escape stands for, and how many characters follow the backslash. -/
def escape? : List Char → Option (Char × Nat)
  | 'x' :: rest => (hexChar? 2 rest).map (·, 3)
  | 'u' :: rest => (hexChar? 4 rest).map (·, 5)
  | 'U' :: rest => (hexChar? 8 rest).map (·, 9)
  | c :: _ => (namedEscapes.lookup c).map (·, 1)
  | [] => none

/-- Reads a scalar up to the closing quote; `text` and `gap` are as for a plain scalar. -/
def quotedFrom (double : Bool) (line column : Nat) (text : List Char) (gap : Gap)
    (cs : List Char) : Option ReadScalar :=
  match cs with
  | [] => none
  | c :: rest =>
    if isBlank c then quotedFrom double line (column + 1) text (gap.blank c) rest
    else if isBreak c then quotedFrom double (line + 1) 0 text (gap.lineBreak c) rest
    else if column = 0 && isMarker (c :: rest) then none
    else
      let text := gap.text ++ text
      let behind : Cursor := { rest, line, column := column + 1 }
      if double then
        if c = '\x22' then some (.of text {} behind)
        else if c = '\\' then
          match rest with
          | [] => none
          | d :: after =>
            if isBreak d then quotedFrom double (line + 1) 0 text { escaped := true } after
            else
              match escape? (d :: after) with
              | none => none
              | some (e, n) =>
                quotedFrom double line (column + 1 + n) (e :: text) {} ((d :: after).drop n)
        else quotedFrom double line (column + 1) (c :: text) {} rest
      else if c = '\x27' then
        match rest with
        | '\x27' :: after => quotedFrom double line (column + 2) (c :: text) {} after
        | _ => some (.of text {} behind)
      else quotedFrom double line (column + 1) (c :: text) {} rest
termination_by cs.length
decreasing_by all_goals (simp only [List.length_cons, List.length_drop]; omega)

/-- Reads a quoted scalar, from behind the opening quote. -/
def quoted (double : Bool) (c : Cursor) : Option ReadScalar :=
  quotedFrom double c.line c.column [] {} c.rest

/-! ## Block scalars -/

/-- What becomes of the line breaks at the end of a block. -/
inductive Chomping where
  | strip
  | clip
  | keep
deriving DecidableEq, Repr

/-- The first line of a block: what becomes of the end, and the indentation, if it is given. -/
structure BlockHeader where
  chomping : Chomping := .clip
  indent : Option Nat := none
deriving DecidableEq, Repr

/-- What a character of the first line says about the end of a block. -/
def chomping? (c : Char) : Option Chomping :=
  if c = '+' then some .keep else if c = '-' then some .strip else none

/-- Reads the signs of the first line, each at most once and in either order. A digit gives the
indentation, and it is not zero. -/
def blockHeader? (c : Cursor) : Option (BlockHeader × Cursor) :=
  let digit? (d : Char) : Option Nat := (Xml.digitValue? 10 d).filter (· ≠ 0)
  match c.rest with
  | [] => some ({}, c)
  | a :: more =>
    match chomping? a with
    | some chomping =>
      match more with
      | b :: _ =>
        if b.isDigit then (digit? b).map fun n => ({ chomping, indent := some n }, c.skip 2)
        else some ({ chomping }, c.skip 1)
      | [] => some ({ chomping }, c.skip 1)
    | none =>
      if a.isDigit then
        (digit? a).map fun n =>
          match more.head?.bind chomping? with
          | some chomping => ({ chomping, indent := some n }, c.skip 2)
          | none => ({ indent := some n }, c.skip 1)
      else some ({}, c)

/-- Empty lines and the indentation before the first line of a block whose indentation is not
given: the widest indentation, the line breaks, last one first, and the place behind them. -/
def leadingFrom (line column widest : Nat) (breaks : List Char) :
    List Char → Option (Nat × List Char × Cursor)
  | [] => some (max widest column, breaks, { rest := [], line, column })
  | c :: rest =>
    if c = ' ' then leadingFrom line (column + 1) widest breaks rest
    else if c = '\t' then none
    else if isBreak c then leadingFrom (line + 1) 0 (max widest column) (c :: breaks) rest
    else some (max widest column, breaks, { rest := c :: rest, line, column })

/-- Empty lines and the indentation before a line of a block: the line breaks, last one first, and
the place behind them. -/
def indentationFrom (indent line column : Nat) (breaks : List Char) :
    List Char → Option (List Char × Cursor)
  | [] => some (breaks, { rest := [], line, column })
  | c :: rest =>
    if c = ' ' && column < indent then indentationFrom indent line (column + 1) breaks rest
    else if c = '\t' && column < indent then none
    else if isBreak c then indentationFrom indent (line + 1) 0 (c :: breaks) rest
    else some (breaks, { rest := c :: rest, line, column })

theorem length_of_indentationFrom {indent line column : Nat} {breaks cs found : List Char}
    {c : Cursor} (h : indentationFrom indent line column breaks cs = some (found, c)) :
    c.rest.length ≤ cs.length := by
  induction cs generalizing line column breaks with
  | nil =>
    simp only [indentationFrom, Option.some.injEq, Prod.mk.injEq] at h
    simp [← h.2]
  | cons d rest ih =>
    unfold indentationFrom at h
    split at h
    · exact Nat.le_succ_of_le (ih h)
    · split at h
      · cases h
      · split at h
        · exact Nat.le_succ_of_le (ih h)
        · cases h
          exact Nat.le_refl _

/-- A block in the making: its text, last character first, the line break behind the last line,
the empty lines after it, and whether that line starts with a blank. -/
structure Block where
  text : List Char := []
  lastBreak : Option Char := none
  emptyLines : List Char := []
  blankLine : Bool := false
deriving DecidableEq, Repr

/-- The block with one more line. A line break between two lines that start with no blank is folded:
it becomes a space, or is dropped where empty lines follow. -/
def Block.addLine (b : Block) (folded : Bool) (line : List Char) (lastBreak : Option Char) :
    Block :=
  let blankLine := (line.head?.map isBlank).getD false
  let joint :=
    if folded && b.lastBreak = some '\n' && !b.blankLine && !blankLine then
      if b.emptyLines.isEmpty then [' '] else []
    else b.lastBreak.toList
  { text := line.reverse ++ b.emptyLines ++ joint ++ b.text, lastBreak, blankLine }

/-- The start of the line after the one whose end this is. -/
def lineAfter (stop : Cursor) : Cursor := stop.skipBreak?.getD stop

theorem length_lineAfter_le (stop : Cursor) : (lineAfter stop).rest.length ≤ stop.rest.length := by
  unfold lineAfter
  cases h : stop.skipBreak? with
  | none => exact Nat.le_refl _
  | some next => exact Nat.le_of_lt (Cursor.length_of_skipBreak? h)

/-- A line takes something away, if only its line break. -/
theorem length_lineAfter_lt {c : Cursor} (h : c.rest ≠ []) :
    (lineAfter (c.skipWhile (!isBreak ·))).rest.length < c.rest.length := by
  match hc : c.rest with
  | [] => exact absurd hc h
  | d :: rest =>
    by_cases hd : isBreak d
    · simp [lineAfter, Cursor.skipWhile, Cursor.skipBreak?, hc, hd]
    · refine Nat.lt_of_le_of_lt (length_lineAfter_le _) ?_
      have := (List.dropWhile_suffix (l := rest) (!isBreak ·)).length_le
      simp [Cursor.skipWhile, hc, hd]
      omega

/-- Reads the lines of a block. -/
def blockLines (folded : Bool) (indent : Nat) (b : Block) (c : Cursor) : Option (Block × Cursor) :=
  if _hc : c.column = indent ∧ c.rest ≠ [] then
    let stop := c.skipWhile (!isBreak ·)
    let b := b.addLine folded (c.rest.takeWhile (!isBreak ·)) stop.rest.head?
    let next := lineAfter stop
    match _h : indentationFrom indent next.line next.column [] next.rest with
    | none => none
    | some (emptyLines, c) => blockLines folded indent { b with emptyLines } c
  else some (b, c)
termination_by c.rest.length
decreasing_by
  exact Nat.lt_of_le_of_lt (length_of_indentationFrom _h) (length_lineAfter_lt _hc.2)

/-- The whole text of a block. -/
def Block.finish (b : Block) (chomping : Chomping) : String :=
  let text :=
    match chomping with
    | .strip => b.text
    | .clip => b.lastBreak.toList ++ b.text
    | .keep => b.emptyLines ++ b.lastBreak.toList ++ b.text
  String.ofList text.reverse

/-- Reads a block, from behind the sign that opens it. `margin` is the first column inside the
collection around it. -/
def block (folded : Bool) (margin : Nat) (c : Cursor) : Option ReadScalar := do
  let (header, c) ← blockHeader? c
  let c ← c.endLine?
  let (indent, emptyLines, c) ←
    match header.indent with
    | some n =>
      let indent := margin - 1 + n
      (indentationFrom indent c.line c.column [] c.rest).map fun (breaks, c) => (indent, breaks, c)
    | none =>
      (leadingFrom c.line c.column 0 [] c.rest).map fun (widest, breaks, c) =>
        (max (max widest margin) 1, breaks, c)
  let (b, c) ← blockLines folded indent { emptyLines } c
  pure { text := b.finish header.chomping, after := c }

end SoapMtom.Yaml
