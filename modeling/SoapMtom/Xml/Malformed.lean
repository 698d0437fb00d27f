import SoapMtom.Text.Quoted
import SoapMtom.Xml.Entity

/-!
# Why bytes are no document

The causes are kept apart by the layer that finds them: `MarkupError` for tags that do not end, do
not match or bind a reserved prefix; `AttributeError` for the inside of a tag; `ReadingError` for
text. `Malformed` joins them with the causes that concern the document as a whole.
-/

namespace SoapMtom.Xml

/-- What is wrong with the markup at some place. -/
inductive MarkupError where
  | tagNotClosed
  | cdataNotClosed
  | commentNotClosed
  | doctypeNotClosed
  | instructionNotClosed
  | unknownMarkup
  | doctypeUnnamed
  | endMismatch (expected found : String)
  | endUnmatched (found : String)
  | reservedBinding (namePrefix uri : Bytes)
deriving DecidableEq, Repr

/-- Bytes between double quotes, those that are not printable ASCII by number. -/
def quoteBytes (bs : Bytes) : String :=
  let one (b : UInt8) : List Char :=
    if b = 34 then ['\\', '\x22']
    else if 32 ≤ b && b ≤ 126 then [Char.ofNat b.toNat]
    else '0' :: 'x' :: (Nat.toDigits 16 b.toNat).map Char.toUpper
  String.ofList ('\x22' :: bs.flatMap one ++ ['\x22'])

/-- The wording of these failures. -/
def MarkupError.message : MarkupError → String
  | .tagNotClosed => "syntax error: tag not closed: `>` not found before end of input"
  | .cdataNotClosed => "syntax error: CDATA not closed: `]]>` not found before end of input"
  | .commentNotClosed => "syntax error: comment not closed: `-->` not found before end of input"
  | .doctypeNotClosed => "syntax error: DOCTYPE not closed: `>` not found before end of input"
  | .instructionNotClosed =>
    "syntax error: processing instruction or xml declaration not closed: " ++
      "`?>` not found before end of input"
  | .unknownMarkup => "syntax error: unknown or missed symbol in markup"
  | .doctypeUnnamed =>
    "ill-formed document: `<!DOCTYPE>` declaration does not contain a name of a document type"
  | .endMismatch expected found =>
    s!"ill-formed document: expected `</{expected}>`, but `</{found}>` was found"
  | .endUnmatched found =>
    s!"ill-formed document: close tag `</{found}>` does not match any open tag"
  | .reservedBinding namePrefix uri =>
    "The namespace prefix '" ++ quoteBytes namePrefix ++ "' cannot be bound to '" ++
      quoteBytes uri ++ "'"

/-- What is wrong inside a tag. Places count bytes from the start of the name. -/
inductive AttributeError where
  | expectedEq (place : Nat)
  | expectedValue (place : Nat)
  | unquotedValue (place : Nat)
  | expectedQuote (place : Nat) (quote : UInt8)
  | duplicated (place previous : Nat)
deriving DecidableEq, Repr

/-- The wording of these failures. -/
def AttributeError.message : AttributeError → String
  | .expectedEq place =>
    s!"position {place}: attribute key must be directly followed by `=` or space"
  | .expectedValue place => s!"position {place}: `=` must be followed by an attribute value"
  | .unquotedValue place =>
    s!"position {place}: attribute value must be enclosed in `\"` or `'`"
  | .expectedQuote place quote =>
    s!"position {place}: missing closing quote `{Char.ofNat quote.toNat}` in attribute value"
  | .duplicated place previous =>
    s!"position {place}: duplicated attribute, previous declaration at position {previous}"

/-- Why bytes of a document cannot be read as text. -/
inductive ReadingError where
  | malformed (cause : Utf8.Malformed)
  | reference (cause : BadReference)
deriving DecidableEq, Repr

/-- The wording of these failures. -/
def ReadingError.message : ReadingError → String
  | .malformed cause => "Malformed UTF-8 input: " ++ cause.message
  | .reference cause => cause.message

/-- Why bytes are no document. -/
inductive Malformed where
  | markup (place : Nat) (cause : MarkupError)
  | attribute (element : String) (cause : AttributeError)
  | attributeValue (element : String) (cause : ReadingError)
  | text (cause : ReadingError)
  | cdata (cause : Utf8.Malformed)
  | name (cause : Utf8.Malformed)
  | unknownPrefix (namePrefix : String)
  | doctype
  | textOutsideRoot
  | secondRoot
  | includeWithoutHref
  | unclosed (element : String)
  | noRoot
deriving DecidableEq, Repr

/-- The wording of all these failures. -/
def Malformed.message : Malformed → String
  | .markup place cause => s!"XML parse error at position {place}: " ++ cause.message
  | .attribute element cause => s!"invalid attribute on <{element}>: " ++ cause.message
  | .attributeValue element cause => s!"invalid attribute value on <{element}>: " ++ cause.message
  | .text cause => "invalid text content: " ++ cause.message
  | .cdata cause => "invalid UTF-8 in CDATA: " ++ cause.message
  | .name cause => "invalid UTF-8: " ++ cause.message
  | .unknownPrefix namePrefix => "unknown namespace prefix " ++ Text.quote namePrefix
  | .doctype => "DOCTYPE declarations are not allowed"
  | .textOutsideRoot => "text content outside the root element"
  | .secondRoot => "document has more than one root element"
  | .includeWithoutHref => "xop:Include without href"
  | .unclosed element => s!"unexpected end of document inside <{element}>"
  | .noRoot => "document has no root element"

end SoapMtom.Xml
