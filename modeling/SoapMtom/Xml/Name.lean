import SoapMtom.Text.Alphabetic
import SoapMtom.Text.Numeric

/-!
# Names and namespaces

The namespaces that the library knows, which of them are always written with a prefix, and which
names can be written at all.
-/

namespace SoapMtom.Xml

/-- The namespace of SOAP 1.1 envelopes. -/
def soap11 : String := "http://schemas.xmlsoap.org/soap/envelope/"

/-- The namespace of SOAP 1.2 envelopes. -/
def soap12 : String := "http://www.w3.org/2003/05/soap-envelope"

/-- The namespace of references to attachments. -/
def xop : String := "http://www.w3.org/2004/08/xop/include"

/-- The namespace of the attribute that gives the media type of inlined bytes. -/
def xmime : String := "http://www.w3.org/2005/05/xmlmime"

/-- The namespace that the prefix `xml` always stands for. -/
def xmlNamespace : String := "http://www.w3.org/XML/1998/namespace"

/-- The namespace that the prefix `xmlns` always stands for. -/
def xmlnsNamespace : String := "http://www.w3.org/2000/xmlns/"

/-- Whether elements of the namespace are written with a prefix; all others are written in the
default namespace. -/
def isPrefixed (ns : String) : Bool := ns = soap11 || ns = soap12 || ns = xop

/-- The prefixes kept for namespaces that the library knows. -/
def wellKnown : List (String × String) :=
  [(soap11, "soap"), (soap12, "soap12"), (xop, "xop"), (xmime, "xmime"), (xmlNamespace, "xml")]

/-- The prefix kept for a namespace, if there is one. -/
def wellKnownPrefix? (ns : String) : Option String := wellKnown.lookup ns

/-- Whether a name may start with the character. -/
def isNameStart (c : Char) : Bool := Text.isAlphabetic c || c = '_'

/-- Whether a name may hold the character after its first. -/
def isNameRest (c : Char) : Bool :=
  Text.isAlphabetic c || Text.isNumeric c || c = '_' || c = '-' || c = '.'

/-- Whether the text is a name that can be written: it has no colon, so no prefix. -/
def isName (s : String) : Bool :=
  match s.toList with
  | [] => false
  | c :: rest => isNameStart c && rest.all isNameRest

end SoapMtom.Xml
