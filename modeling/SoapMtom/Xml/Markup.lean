import SoapMtom.Xml.Entity

/-!
# Markup as it is written

`Markup` is a tag or a text about to be written. `render` joins the pieces; it is the only place
where angle brackets, quotes and references are put in. Names are written as they are.
-/

namespace SoapMtom.Xml

/-- A tag, a text, or the declaration at the head of a document. -/
inductive Markup where
  | declaration
  | start (name : String) (attributes : List (String × String))
  /-- An element without content, as one tag. -/
  | empty (name : String) (attributes : List (String × String))
  | stop (name : String)
  | text (content : String)
deriving DecidableEq, Repr

namespace Markup

/-- An attribute with a space before it. -/
def renderAttribute (a : String × String) : List Char :=
  ' ' :: a.1.toList ++ '=' :: '\x22' :: (escape a.2).toList ++ ['\x22']

/-- The characters of one piece. -/
def render : Markup → List Char
  | .declaration => "<?xml version=\"1.0\" encoding=\"UTF-8\"?>".toList
  | .start name attributes => '<' :: name.toList ++ attributes.flatMap renderAttribute ++ ['>']
  | .empty name attributes =>
    '<' :: name.toList ++ attributes.flatMap renderAttribute ++ ['/', '>']
  | .stop name => '<' :: '/' :: name.toList ++ ['>']
  | .text content => (escape content).toList

/-- The text that the pieces make. -/
def renderAll (pieces : List Markup) : String := String.ofList (pieces.flatMap render)

end Markup

end SoapMtom.Xml
