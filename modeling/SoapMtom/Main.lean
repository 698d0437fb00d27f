import SoapMtom.Client
import SoapMtom.Config.Document
import Std.Time.DateTime.Timestamp

/-!
# The command line

Prepares one call and prints the request it sends: the endpoint, the header fields, an empty line,
and the body. The settings come from a YAML file, the payload from an XML file, and attachments from
files that are named on the command line. Whatever goes wrong is said on the error output.
-/

namespace SoapMtom.CommandLine

open Xml (Element)

/-- What the arguments ask for. -/
structure Options where
  config : String := "client.yaml"
  endpoint : Option String := none
  action : Option String := none
  body : Option String := none
  /-- Names of new child elements of the payload, each with the file that it holds. -/
  attachments : List (String × String) := []
  mtom : Bool := false
  username : Option String := none
  password : Option String := none

/-- The name and the file in `NAME=PATH`. -/
def attachment (value : String) : Except String (String × String) :=
  match Text.cutAt? '=' value.toList with
  | some (name, path) => .ok (String.ofList name, String.ofList path)
  | none => .error ("Invalid --attach value " ++ Text.quote value ++ ", expected NAME=PATH")

/-- Takes in the arguments from left to right. -/
def Options.read (o : Options) : List String → Except String Options
  | [] => .ok o
  | "--mtom" :: rest => Options.read { o with mtom := true } rest
  | [flag] => .error (flag ++ " takes a value, or is no option")
  | flag :: value :: rest =>
    match flag with
    | "-c" | "--config" => Options.read { o with config := value } rest
    | "-e" | "--endpoint" => Options.read { o with endpoint := some value } rest
    | "-a" | "--action" => Options.read { o with action := some value } rest
    | "-b" | "--body" => Options.read { o with body := some value } rest
    | "--username" => Options.read { o with username := some value } rest
    | "--password" => Options.read { o with password := some value } rest
    | "--attach" => do
      let file ← attachment value
      Options.read { o with attachments := o.attachments ++ [file] } rest
    | _ => .error (flag ++ " is no option")

/-- Fails with the words of an error. -/
def orFail {α : Type} (x : Except SoapError α) : IO α :=
  match x with
  | .ok a => pure a
  | .error e => throw (IO.userError e.message)

/-- The bytes of a file. -/
def readFile (path : String) : IO Bytes := do
  pure (← IO.FS.readBinFile path).toList

/-- An identifier of random bits. -/
def randomId : IO Uuid := do
  let bytes ← IO.getRandomBytes 16
  pure (Uuid.ofRandom (BitVec.ofNat 128 (bytes.foldl (fun n b => n * 256 + b.toNat) 0)))

/-- The present. -/
def now : IO Instant := do
  let nanoseconds := (← Std.Time.Timestamp.now).toNanosecondsSinceUnixEpoch.val
  pure
    { seconds := nanoseconds / 1000000000
      nanoseconds := (nanoseconds % 1000000000).toNat }

/-- The settings in the file, or the defaults if there is none, with what the arguments say on
top. -/
def settings (o : Options) : IO Config := do
  let c ←
    try
      match (Utf8.decode (← readFile o.config)).toOption.bind Config.parse? with
      | some c => pure c
      | none => throw (IO.userError "Failed to parse config file")
    catch e =>
      match e with
      | .noFileOrDirectory .. => pure {}
      | e => throw e
  let c := { c with mtom := c.mtom || o.mtom }
  pure { c with endpoint := o.endpoint.getD c.endpoint }

/-- The payload in the file, with the attachments that the arguments name. -/
def payload (o : Options) (path : String) : IO Element := do
  let document ← orFail ((Xml.Document.read (← readFile path)).mapError (.parse ∘ .document))
  if !document.references.isEmpty then
    throw (IO.userError "body payload must not contain xop:Include elements")
  o.attachments.foldlM (fun root (name, file) => do
    let a := Attachment.fresh (← randomId) (← readFile file)
    pure (root.withChild ((Element.named name).withAttachment a))) document.root

/-- A client with these settings, and with a token if there are a user and a password. -/
def client (o : Options) (config : Config) : IO Client := do
  let c ← orFail (Client.ofConfig config)
  match o.username, o.password with
  | some username, some password =>
    let token : Security.UsernameToken := { username, password }
    pure (c.addEntry (token.withCreated (← now)).headerEntry)
  | _, _ => pure c

/-- Prints a request. -/
def print (request : Http.Request) : IO Unit := do
  let output ← IO.getStdout
  output.putStr ("POST " ++ request.url ++ "\r\n")
  for (name, value) in request.headers do
    output.putStr (name ++ ": " ++ Utf8.lossy value ++ "\r\n")
  output.putStr "\r\n"
  output.write request.body.toByteArray
  output.flush

/-- Prepares the call and prints its request. -/
def run (o : Options) (action body : String) : IO Unit := do
  let config ← settings o
  let body ← payload o body
  let c ← client o config
  let ids ← (List.range (Multipart.boundaryAttempts + 1)).mapM fun _ => randomId
  print (← orFail (c.request (fun n => ids.getD n 0) action body))

end SoapMtom.CommandLine

/-- Reads the arguments; the code tells whether they were understood and the call was prepared. -/
def main (arguments : List String) : IO UInt32 := do
  match SoapMtom.CommandLine.Options.read {} arguments with
  | .ok o =>
    match o.action, o.body with
    | some action, some body =>
      try
        SoapMtom.CommandLine.run o action body
        pure 0
      catch e =>
        IO.eprintln s!"Error: {e}"
        pure 1
    | _, _ =>
      IO.eprintln "error: --action and --body are required"
      pure 2
  | .error message =>
    IO.eprintln ("error: " ++ message)
    pure 2
