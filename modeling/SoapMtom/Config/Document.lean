import SoapMtom.Error
import SoapMtom.Yaml.Node

/-!
# Settings in a file

Settings are written as a YAML mapping with a key for each of them. A setting that is left out has
its default, and a key that is no setting is passed over. `Config.ofYaml` reads such a document and
checks the settings; `Config.toYaml` writes one.
-/

namespace SoapMtom.Config

open Yaml (Node)

/-! ## Values of settings -/

/-- The text of a scalar, whatever its style. -/
def text? (d : Yaml.Document) (node : Node) : Option String :=
  match d.target node with
  | .scalar _ _ text => some text
  | _ => none

/-- The text of a scalar that may stand for something else than a text: a plain one, or a literal
block that a tag says to be of that kind. -/
def literal? (d : Yaml.Document) (kind : String) (node : Node) : Option String :=
  match d.target node with
  | .scalar _ .plain text => some text
  | .scalar (some tag) .literal text =>
    if tag = Yaml.coreTag kind then some text else none
  | _ => none

/-- A truth value. -/
def bool? (d : Yaml.Document) (node : Node) : Option Bool :=
  match literal? d "bool" node with
  | some "true" | some "True" | some "TRUE" => some true
  | some "false" | some "False" | some "FALSE" => some false
  | _ => none

/-- The number below 2 ^ 64 that digits of that base write; there has to be one. -/
def numberOf? (base : Nat) (digits : List Char) : Option Nat :=
  let value (soFar : Option Nat) (c : Char) : Option Nat := do
    let n := (← soFar) * base + (← Xml.digitValue? base c)
    if n < UInt64.size then some n else none
  if digits.isEmpty then none else digits.foldl value (some 0)

/-- The number that a scalar writes: with a plus sign in front or none, in decimal without leading
zeros, or in base sixteen, eight or two. -/
def parseNumber? (text : String) : Option Nat :=
  let digits :=
    match text.toList with
    | '+' :: digits => digits
    | digits => digits
  match digits with
  | '0' :: 'x' :: digits => numberOf? 16 digits
  | '0' :: 'o' :: digits => numberOf? 8 digits
  | '0' :: 'b' :: digits => numberOf? 2 digits
  | '0' :: _ :: _ => none
  | digits => numberOf? 10 digits

/-- A number. -/
def number? (d : Yaml.Document) (node : Node) : Option Nat :=
  (literal? d "int" node).bind parseNumber?

/-- The entries of a mapping; where nothing is written there are none. -/
def entries? (d : Yaml.Document) (node : Node) : Option (List (Node × Node)) :=
  match d.target node with
  | .mapping entries => some entries
  | .scalar _ .plain text => if text.isEmpty then some [] else none
  | _ => none

/-- Whether nothing is set: nothing is written, or the word for it. A tag that says so has to stand
before that word. -/
def isNull? (d : Yaml.Document) (node : Node) : Option Bool :=
  match d.target node with
  | .scalar tag .plain text =>
    let word := text ∈ ["null", "Null", "NULL", "~"]
    match tag with
    | none => some (text.isEmpty || word)
    | some tag =>
      if tag = Yaml.coreTag "null" then if word then some true else none else some false
  | _ => some false

/-- The entries of a mapping under texts, each read by `read`; those that are not asked for are
passed over. A key that is asked for may stand there once. -/
def fields? (d : Yaml.Document) (known : List String) (node : Node) :
    Option (List (String × Node)) := do
  let entries ← entries? d node
  let named ← entries.mapM fun (key, value) => do pure (← text? d key, value)
  let asked := named.filter (known.contains ·.1)
  if (asked.map (·.1)).Nodup then some asked else none

/-- Texts under names; of those under one name the last stays. -/
def headers? (d : Yaml.Document) (node : Node) : Option Http.FieldMap := do
  let entries ← entries? d node
  let texts ← entries.mapM fun (key, value) => do pure (← text? d key, ← text? d value)
  pure (.ofList texts)

/-- User and password, both of which have to be there. -/
def basicAuth? (d : Yaml.Document) (node : Node) : Option BasicAuth := do
  let fields ← fields? d ["username", "password"] node
  let username ← (fields.lookup "username").bind (text? d)
  let password ← (fields.lookup "password").bind (text? d)
  pure { username, password }

/-- User and password, if anything is set. -/
def optionalAuth? (d : Yaml.Document) (node : Node) : Option (Option BasicAuth) := do
  if ← isNull? d node then pure none else some <$> basicAuth? d node

/-! ## Documents -/

/-- The keys of the settings. -/
def keys : List String :=
  ["endpoint", "user_agent", "mtom", "http_headers", "timeout_secs", "connect_timeout_secs",
    "basic_auth", "accept_invalid_certs"]

/-- Sets the setting of that key. -/
def setField (d : Yaml.Document) (c : Config) (field : String × Node) : Option Config :=
  let value := field.2
  match field.1 with
  | "endpoint" => do pure { c with endpoint := ← text? d value }
  | "user_agent" => do pure { c with userAgent := ← text? d value }
  | "mtom" => do pure { c with mtom := ← bool? d value }
  | "http_headers" => do pure { c with httpHeaders := ← headers? d value }
  | "timeout_secs" => do pure { c with timeoutSecs := ← number? d value }
  | "connect_timeout_secs" => do pure { c with connectTimeoutSecs := ← number? d value }
  | "basic_auth" => do pure { c with basicAuth := ← optionalAuth? d value }
  | "accept_invalid_certs" => do pure { c with acceptInvalidCerts := ← bool? d value }
  | _ => some c

/-- The settings that a document writes. -/
def ofDocument? (d : Yaml.Document) : Option Config := do
  (← fields? d keys d.root).foldlM (setField d) {}

/-- The settings that a text writes, unchecked. A text that holds no document sets nothing. -/
def parse? (text : String) : Option Config :=
  match Yaml.Document.read text with
  | none => none
  | some none => some {}
  | some (some d) => ofDocument? d

/-- The settings that a text writes, once they are checked. -/
def ofYaml (text : String) : Except SoapError Config :=
  match parse? text with
  | none => .error (.config .unreadable)
  | some c =>
    match c.validate with
    | .ok () => .ok c
    | .error cause => .error (.config cause)

/-- The settings in a file with that content, or in none. -/
def ofFile (content : Option Bytes) : Except SoapError Config :=
  match content with
  | none => .error (.file .notFound)
  | some bs =>
    match Utf8.decode bs with
    | .ok text => ofYaml text
    | .error _ => .error (.file .notText)

/-! ## Writing -/

/-- The hexadecimal digits of a number, filled up with zeros to that width. -/
def codeDigits (width n : Nat) : List Char :=
  let digits := Nat.toDigits 16 n
  List.replicate (width - digits.length) '0' ++ digits

/-- A character between double quotes. Those that are no visible ASCII are written by their code. -/
def quotedChar (c : Char) : List Char :=
  if c = '\x22' || c = '\\' then ['\\', c]
  else if ' ' ≤ c && c ≤ '~' then [c]
  else if c.toNat < 0x10000 then '\\' :: 'u' :: codeDigits 4 c.toNat
  else '\\' :: 'U' :: codeDigits 8 c.toNat

/-- A text between double quotes. -/
def quotedText (s : String) : String :=
  String.ofList ('\x22' :: s.toList.flatMap quotedChar ++ ['\x22'])

/-- The longest key that is written without a question mark in front. -/
def maxKeyLength : Nat := 128

/-- A header field on lines of its own, under the key of the header. -/
def headerLines (entry : String × String) : String :=
  let name := quotedText entry.1
  let value := quotedText entry.2
  if name.length ≤ maxKeyLength then "  " ++ name ++ ": " ++ value ++ "\n"
  else "  ? " ++ name ++ "\n  : " ++ value ++ "\n"

/-- The header fields, under their key. -/
def headersLines (headers : Http.FieldMap) : String :=
  if headers.entries.isEmpty then "http_headers: \x7b\x7d\n"
  else "http_headers:\n" ++ String.join (headers.entries.map headerLines)

/-- User and password, under their key. -/
def authLines : Option BasicAuth → String
  | none => "basic_auth: null\n"
  | some auth =>
    "basic_auth:\n  username: " ++ quotedText auth.username ++ "\n  password: " ++
      quotedText auth.password ++ "\n"

/-- The settings as a YAML document. -/
def toYaml (c : Config) : String :=
  "endpoint: " ++ quotedText c.endpoint ++ "\nuser_agent: " ++ quotedText c.userAgent ++
    "\nmtom: " ++ toString c.mtom ++ "\n" ++ headersLines c.httpHeaders ++
    "timeout_secs: " ++ toString c.timeoutSecs ++ "\nconnect_timeout_secs: " ++
    toString c.connectTimeoutSecs ++ "\n" ++ authLines c.basicAuth ++
    "accept_invalid_certs: " ++ toString c.acceptInvalidCerts ++ "\n"

end SoapMtom.Config
