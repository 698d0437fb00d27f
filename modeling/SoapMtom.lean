import SoapMtom.Bytes
import SoapMtom.Text.Utf8
import SoapMtom.Text.Blank
import SoapMtom.Text.Quoted
import SoapMtom.Text.Alphabetic
import SoapMtom.Text.Numeric
import SoapMtom.Base64
import SoapMtom.Text.Duration
import SoapMtom.Timestamp
import SoapMtom.Xml.Element
import SoapMtom.Xml.Malformed
import SoapMtom.Xml.Token
import SoapMtom.Xml.Binding
import SoapMtom.Xml.Document
import SoapMtom.Xml.Writing
import SoapMtom.Multipart
import SoapMtom.Http.Message
import SoapMtom.Client
import SoapMtom.Yaml.Node
import SoapMtom.Config.Document
import SoapMtom.Main
import SoapMtom.Proofs.Text.Encoding
import SoapMtom.Proofs.Xml.NameBytes
import SoapMtom.Proofs.Xml.TagContent
import SoapMtom.Proofs.Xml.Tokens
import SoapMtom.Proofs.Xml.Scope
import SoapMtom.Proofs.Xml.Tree
import SoapMtom.Proofs.Xml.Assembly
import SoapMtom.Proofs.Xml.Keys
import SoapMtom.Proofs.Xml.Escaped
import SoapMtom.Proofs.Xml.Agreement
import SoapMtom.Proofs.Xml.Represented
import SoapMtom.Proofs.Xml.Received
import SoapMtom.Proofs.Xml.Building
import SoapMtom.Proofs.Xml.Reader
import SoapMtom.Proofs.Xml.Declarations
import SoapMtom.Proofs.Xml.Reading
import SoapMtom.Proofs.Xml.Rewriting
import SoapMtom.Proofs.Envelope
import SoapMtom.Proofs.Base64
import SoapMtom.Proofs.Xml.Inlined
import SoapMtom.Proofs.Faithful
import SoapMtom.Proofs.Attachments
import SoapMtom.Proofs.InlinedRoundTrip
import SoapMtom.Proofs.ContentId
import SoapMtom.Proofs.Mime.MediaType
import SoapMtom.Proofs.Mime.Parameters
import SoapMtom.Proofs.Mime.Framing
import SoapMtom.Proofs.Mime.HeaderLines
import SoapMtom.Proofs.Mime.Part
import SoapMtom.Proofs.Mime.HeaderEnd
import SoapMtom.Proofs.Mime.FoldedWords
import SoapMtom.Proofs.Resolution
import SoapMtom.Proofs.Multipart
import SoapMtom.Proofs.MultipartRoundTrip
import SoapMtom.Shared
import SoapMtom.Proofs.Call
import SoapMtom.Proofs.Closed
import SoapMtom.Proofs.Http
import SoapMtom.Proofs.Enclosure
import SoapMtom.Proofs.Mirror
import SoapMtom.Proofs.Shared
import SoapMtom.Proofs.FaultRoundTrip
import SoapMtom.Proofs.Xml.Presentation
import SoapMtom.Proofs.Xml.Namespaces
import SoapMtom.Proofs.Mime.Folding
import SoapMtom.Proofs.AttachmentParts
import SoapMtom.Proofs.ReadBack
import SoapMtom.Proofs.PartOrder
import SoapMtom.Proofs.Mime.Recoding
import SoapMtom.Proofs.TransferEncoding
import SoapMtom.Proofs.Lasting
import SoapMtom.Proofs.Calendar
import SoapMtom.Proofs.Timestamp
import SoapMtom.Proofs.UsernameToken
import SoapMtom.Proofs.Text.ByteOrder
import SoapMtom.Proofs.Xml.Normal
import SoapMtom.Proofs.NormalForm
import SoapMtom.Proofs.RequestHeader
import SoapMtom.Proofs.Xml.References
import SoapMtom.Proofs.Xml.Content
import SoapMtom.Proofs.Xml.Cuts
import SoapMtom.Proofs.Xml.Joining
import SoapMtom.Proofs.Xml.Asides
import SoapMtom.Proofs.Xml.NcName
import SoapMtom.Proofs.Sections
import SoapMtom.Proofs.ReferenceEscapes
import SoapMtom.Proofs.Places
import SoapMtom.Proofs.EncodedFraming
import SoapMtom.Proofs.Xml.Lineages
