import SoapMtom.Bytes
import SoapMtom.Mime.Malformed

/-!
# Parts between boundary lines

A message in parts is a sequence of lines. A line that starts with two hyphens and the boundary
opens a part, and with two more hyphens it closes the last one. The line break before such a line
belongs to it and not to the part. `Framing.join` writes parts in that way, `Framing.split` finds
them; what stands before the first boundary and after the closing one is passed over.
-/

namespace SoapMtom.Mime.Framing

/-- A line feed. -/
def lineFeed : UInt8 := 10

/-- The line break that is written. -/
def crlf : Bytes := [13, 10]

/-- Cuts after each line feed; `line` holds the line so far, last byte first. -/
def linesFrom (line : Bytes) : Bytes → List Bytes
  | [] => if line.isEmpty then [] else [line.reverse]
  | b :: rest =>
    if b = lineFeed then (b :: line).reverse :: linesFrom [] rest
    else linesFrom (b :: line) rest

/-- The lines of the bytes, each with its line feed; the last one may have none. -/
def lines (bs : Bytes) : List Bytes := linesFrom [] bs

/-- The bytes without the line break at their end: a line feed, and a carriage return before it. -/
def withoutLineBreak (bs : Bytes) : Bytes :=
  match bs.reverse with
  | 10 :: 13 :: rest => rest.reverse
  | 10 :: rest => rest.reverse
  | _ => bs

/-- The start of every boundary line. -/
def delimiter (boundary : String) : Bytes := Utf8.encode ("--" ++ boundary)

/-- Reads parts from lines of which the first, if there is one, is a boundary line. -/
def partsFrom (delimiter : Bytes) (ls : List Bytes) : Except Malformed (List Bytes) :=
  match ls with
  | [] => .error .unclosed
  | line :: rest =>
    if (delimiter ++ [45, 45]).isPrefixOf line then .ok []
    else if line.getLast? ≠ some lineFeed then .error .truncated
    else do
      let inPart (line : Bytes) : Bool := !delimiter.isPrefixOf line
      let others ← partsFrom delimiter (rest.dropWhile inPart)
      pure (withoutLineBreak (rest.takeWhile inPart).flatten :: others)
termination_by ls.length
decreasing_by
  have := (List.dropWhile_sublist (fun line => !delimiter.isPrefixOf line) (l := rest)).length_le
  simp only [List.length_cons]
  omega

/-- The parts of a message, header and content of each together. There has to be one at least. -/
def split (boundary : String) (body : Bytes) : Except Malformed (List Bytes) :=
  let delimiter := delimiter boundary
  match (lines body).dropWhile (!delimiter.isPrefixOf ·) with
  | [] => .error .boundaryAbsent
  | ls => do
    let parts ← partsFrom delimiter ls
    if parts.isEmpty then throw .noParts
    pure parts

/-- A message of these parts. -/
def join (boundary : String) (parts : List Bytes) : Bytes :=
  parts.flatMap (fun part => delimiter boundary ++ crlf ++ part ++ crlf) ++
    delimiter boundary ++ [45, 45] ++ crlf

end SoapMtom.Mime.Framing
