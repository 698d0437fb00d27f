import SoapMtom.Text.Ascii
import SoapMtom.Text.Blank
import SoapMtom.Text.Split

/-!
# Media types with parameters

A media type is written as `type/subtype`, followed by parameters after semicolons. The value of a
parameter may be quoted; inside quotes a semicolon is text, and a backslash takes the character
after it as it is.
-/

namespace SoapMtom.Mime

/-- A media type: `type/subtype` in lower case, and parameters under lower-case names, in order. -/
structure MediaType where
  essence : String
  parameters : List (String × String)
deriving DecidableEq, Repr

/-- Where a reader of a media type stands. -/
inductive QuoteState where
  | outside
  | quoted
  /-- Inside quotes, after a backslash. -/
  | escaped
deriving DecidableEq, Repr

/-- Where the reader stands after one more character. -/
def QuoteState.next : QuoteState → Char → QuoteState
  | .escaped, _ => .quoted
  | .outside, c => if c = '\x22' then .quoted else .outside
  | .quoted, c => if c = '\\' then .escaped else if c = '\x22' then .outside else .quoted

namespace MediaType

/-- Cuts at each semicolon outside quotes; `current` holds the piece so far, last character
first. -/
def segmentsFrom (state : QuoteState) (current : List Char) : List Char → List (List Char)
  | [] => [current.reverse]
  | c :: rest =>
    if c = ';' && state = .outside then current.reverse :: segmentsFrom .outside [] rest
    else segmentsFrom (state.next c) (c :: current) rest

/-- The characters without backslashes that take another character as it is. -/
def unescape : List Char → List Char
  | '\\' :: c :: rest => c :: unescape rest
  | ['\\'] => []
  | c :: rest => c :: unescape rest
  | [] => []

/-- The value of a parameter without the quotes around it. -/
def unquote (value : List Char) : List Char :=
  match value with
  | '\x22' :: inner => if inner.getLast? = some '\x22' then unescape inner.dropLast else value
  | _ => value

/-- The parameter that a segment writes, if there is an equals sign in it. -/
def parameterOf? (segment : List Char) : Option (String × String) :=
  (Text.cutAt? '=' segment).map fun (name, value) =>
    (Text.lower (String.ofList (Text.trimChars name)),
      String.ofList (unquote (Text.trimChars value)))

/-- Reads a media type; every text is one. -/
def parse (s : String) : MediaType :=
  match segmentsFrom .outside [] s.toList with
  | [] => { essence := "", parameters := [] }
  | essence :: segments =>
    { essence := Text.lower (String.ofList (Text.trimChars essence))
      parameters := segments.filterMap parameterOf? }

/-- Whether it is one of the `multipart` types. -/
def isMultipart (m : MediaType) : Bool := "multipart/".toList.isPrefixOf m.essence.toList

/-- The value of the first parameter of that name, which is in lower case. -/
def parameter? (m : MediaType) (name : String) : Option String :=
  (m.parameters.find? (·.1 = name)).map (·.2)

end MediaType

end SoapMtom.Mime
