import SoapMtom.Base64
import SoapMtom.Text.Ascii
import SoapMtom.Text.Utf8
import SoapMtom.Xml.Element

/-!
# Reading the fields of an element

A field is a child element that has to be there, or bytes that an element holds. Bytes stand in a
tree as an attachment, or as base64 text with the media type in an attribute; a reference that
nobody has resolved holds no bytes.
-/

namespace SoapMtom.Xml

/-- Why an element does not hold the field that is asked for. -/
inductive FieldError where
  | missing (owner child : String)
  | unresolved (owner : String)
  | notBase64 (owner : String) (cause : Base64.Malformed)
deriving DecidableEq, Repr

/-- The wording of the three failures. -/
def FieldError.message : FieldError → String
  | .missing owner child => "<" ++ owner ++ "> has no <" ++ child ++ "> child"
  | .unresolved owner => "<" ++ owner ++ "> holds an unresolved xop:Include"
  | .notBase64 owner cause => "<" ++ owner ++ "> is not base64: " ++ cause.message

namespace Element

/-- The first child element of that local name, which has to be there. -/
def requireChild (e : Element) (name : String) : Except FieldError Element :=
  match e.child? name with
  | some child => .ok child
  | none => .error (.missing e.name name)

/-- The bytes that the element's text writes in base64. ASCII blanks may stand anywhere in it. -/
def base64Text (e : Element) : Except FieldError Bytes :=
  (Base64.decode ((Utf8.encode e.text).filter (!Text.isAsciiBlank ·))).mapError
    (.notBase64 e.name)

/-- The attachment that the element holds, or one of the bytes that its text writes; that one takes
its content id from `fresh`. -/
def readAttachment (fresh : Uuid) (e : Element) : Except FieldError Attachment :=
  match e.attachment? with
  | some a => .ok a
  | none =>
    if e.children.any Node.isReference then .error (.unresolved e.name)
    else do
      let data ← e.base64Text
      pure ((Attachment.fresh fresh data).withContentType
        ((e.attribute? "contentType").getD defaultContentType))

end Element

end SoapMtom.Xml
