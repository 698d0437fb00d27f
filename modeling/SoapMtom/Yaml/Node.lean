import SoapMtom.Yaml.Layout

/-!
# From tokens to a tree

A YAML document is a tree of scalars, sequences and mappings. A node may have an anchor, and an
alias stands for the node that last had an anchor of that name; it may stand inside that node, so
the tree keeps aliases as they are and `Document.target` follows them.

Anchors are told apart by numbers: one that is written has as its number the count of the names
before it. A name that is written again takes a number but adds no name, so the next new name has
that number too, and from there on the aliases of both stand for the later node.
-/

namespace SoapMtom.Yaml

/-- What the tags of the kinds that YAML itself knows start with. -/
def coreTags : String := "tag:yaml.org,2002:"

/-- The tag of such a kind. -/
def coreTag (kind : String) : Bytes := Utf8.encode (coreTags ++ kind)

/-- A node of a document. -/
inductive Node where
  | scalar (tag : Option Bytes) (style : ScalarStyle) (text : String)
  | sequence (items : List Node)
  /-- Keys with their values, in order; nothing keeps a key from standing there twice. -/
  | mapping (entries : List (Node × Node))
  /-- The last of the nodes with an anchor of that number. -/
  | alias (number : Nat)
deriving Repr

/-- The node that stands where nothing is written. -/
def Node.empty : Node := .scalar none .plain ""

/-- A document: its root, and the nodes with anchors under their numbers, in the order in which they
start. -/
structure Document where
  root : Node
  anchored : Array (Nat × Node)
deriving Repr

/-- The node that a node stands for. -/
def Document.target (d : Document) : Node → Node
  | .alias number => (d.anchored.toList.reverse.lookup number).getD .empty
  | node => node

/-- What is known while tokens are read. -/
structure Reading where
  tokens : List Token
  /-- What the handles of tags stand for. -/
  handles : List (String × Bytes) := []
  /-- The names of anchors, each once, with their numbers. -/
  names : List (String × Nat) := []
  /-- The nodes with anchors, in the order in which they start. One that is not read to its end has
  its place already, and counts as empty until then. -/
  anchored : Array (Nat × Node) := #[]
deriving Repr

namespace Reading

/-- Reading may fail, and moves on along the tokens. -/
abbrev Reader := StateT Reading Option

/-- The next token. -/
def peek : Reader (Option Token) := do pure (← get).tokens.head?

/-- Moves past the next token. -/
def advance : Reader Unit := modify fun r => { r with tokens := r.tokens.drop 1 }

/-- Moves past the next token if it is the one wanted, and tells whether it was. -/
def accept (t : Token) : Reader Bool := do
  if (← peek) = some t then
    advance
    pure true
  else pure false

/-- Moves past the next token, which has to be the one wanted. -/
def expect (t : Token) : Reader Unit := do
  if !(← accept t) then failure

/-- Whether the next token is one of these. The end of the text is none of them. -/
def isNext (ts : List Token) : Reader Bool := do
  pure ((← peek).any ts.contains)

/-- The tag that a handle and a suffix write. -/
def resolveTag (handle : String) (suffix : Bytes) : Reader Bytes := do
  if handle.isEmpty then pure suffix
  else
    match (← get).handles.lookup handle with
    | some stem => pure (stem ++ suffix)
    | none => failure

/-- An anchor, if it comes next. -/
def anchor? : Reader (Option String) := do
  match ← peek with
  | some (.anchor name) =>
    advance
    pure (some name)
  | _ => pure none

/-- A tag, if it comes next. -/
def tag? : Reader (Option Bytes) := do
  match ← peek with
  | some (.tag handle suffix) =>
    advance
    some <$> resolveTag handle suffix
  | _ => pure none

/-- An anchor and a tag, in either order, as far as they are there. -/
def properties : Reader (Option String × Option Bytes) := do
  match ← anchor? with
  | some name => pure (some name, ← tag?)
  | none =>
    match ← tag? with
    | some tag => pure (← anchor?, some tag)
    | none => pure (none, none)

/-- Gives an anchor its number, and its node a place among those with anchors. -/
def register (name : Option String) : Reader (Option Nat) :=
  name.mapM fun name => do
    let r ← get
    let number := r.names.length
    set { r with
      names := (name, number) :: r.names.filter (·.1 ≠ name)
      anchored := r.anchored.push (number, .empty) }
    pure r.anchored.size

/-- Puts a node in its place among those with anchors. -/
def record (place : Option Nat) (node : Node) : Reader Unit :=
  match place with
  | some i =>
    modify fun r => { r with anchored := r.anchored.modify i fun entry => (entry.1, node) }
  | none => pure ()

mutual

/-- Reads a node. Between brackets `block` is false, and then indentation opens no collection; after
a key, `indentless` says that a sequence may stand there without indentation of its own. `fuel`
bounds the tokens to come. -/
def node (fuel : Nat) (block indentless : Bool) : Reader Node :=
  match fuel with
  | 0 => failure
  | fuel + 1 => do
    match ← peek with
    | some (.alias name) =>
      advance
      match (← get).names.lookup name with
      | some number => pure (.alias number)
      | none => failure
    | _ =>
      let (anchor, tag) ← properties
      let place ← register anchor
      let n ← content fuel block indentless tag (anchor.isSome || tag.isSome)
      record place n
      pure n

/-- Reads what follows an anchor and a tag. If there was one of them, nothing needs to follow. -/
def content (fuel : Nat) (block indentless : Bool) (tag : Option Bytes) (mayBeEmpty : Bool) :
    Reader Node :=
  match fuel with
  | 0 => failure
  | fuel + 1 => do
    match ← peek with
    | some (.scalar style text) =>
      advance
      pure (.scalar tag style text)
    | some .flowSequenceStart =>
      advance
      .sequence <$> flowItems fuel true
    | some .flowMappingStart =>
      advance
      .mapping <$> flowEntries fuel true
    | some .blockEntry =>
      if indentless then .sequence <$> indentlessItems fuel
      else if mayBeEmpty then pure (.scalar tag .plain "")
      else failure
    | some .blockSequenceStart =>
      if block then
        advance
        .sequence <$> blockItems fuel
      else if mayBeEmpty then pure (.scalar tag .plain "")
      else failure
    | some .blockMappingStart =>
      if block then
        advance
        .mapping <$> blockEntries fuel
      else if mayBeEmpty then pure (.scalar tag .plain "")
      else failure
    | _ => if mayBeEmpty then pure (.scalar tag .plain "") else failure

/-- Reads a node, or an empty one if one of these tokens comes next. -/
def nodeUnless (fuel : Nat) (ends : List Token) (block indentless : Bool) : Reader Node :=
  match fuel with
  | 0 => failure
  | fuel + 1 => do
    if ← isNext ends then pure .empty else node fuel block indentless

/-- The items of a sequence with indentation of its own, to its end. -/
def blockItems (fuel : Nat) : Reader (List Node) :=
  match fuel with
  | 0 => failure
  | fuel + 1 => do
    if ← accept .blockEnd then pure []
    else
      expect .blockEntry
      let item ← nodeUnless fuel [.blockEntry, .blockEnd] true false
      let others ← blockItems fuel
      pure (item :: others)

/-- The items of a sequence without indentation of its own: as long as hyphens follow. -/
def indentlessItems (fuel : Nat) : Reader (List Node) :=
  match fuel with
  | 0 => failure
  | fuel + 1 => do
    if ← accept .blockEntry then
      let item ← nodeUnless fuel [.blockEntry, .key, .value, .blockEnd] true false
      let others ← indentlessItems fuel
      pure (item :: others)
    else pure []

/-- The entries of a mapping with indentation of its own, to its end. -/
def blockEntries (fuel : Nat) : Reader (List (Node × Node)) :=
  match fuel with
  | 0 => failure
  | fuel + 1 => do
    if ← accept .blockEnd then pure []
    else
      expect .key
      let k ← nodeUnless fuel [.key, .value, .blockEnd] true true
      let v ←
        if ← accept .value then nodeUnless fuel [.key, .value, .blockEnd] true true
        else pure .empty
      let others ← blockEntries fuel
      pure ((k, v) :: others)

/-- The items between square brackets, to the closing one. An item with a key is a mapping of that
one entry. -/
def flowItems (fuel : Nat) (first : Bool) : Reader (List Node) :=
  match fuel with
  | 0 => failure
  | fuel + 1 => do
    if ← accept .flowSequenceEnd then pure []
    else
      if !first then expect .flowEntry
      if ← accept .flowSequenceEnd then pure []
      else
        let item ←
          if ← accept .key then (fun entry => .mapping [entry]) <$> flowPair fuel
          else node fuel false false
        let others ← flowItems fuel false
        pure (item :: others)

/-- The one entry of a mapping that stands between square brackets. The token after a key that is
left out does not count. -/
def flowPair (fuel : Nat) : Reader (Node × Node) :=
  match fuel with
  | 0 => failure
  | fuel + 1 => do
    let k ←
      if ← isNext [.value, .flowEntry, .flowSequenceEnd] then
        advance
        pure .empty
      else node fuel false false
    let v ←
      if ← accept .value then nodeUnless fuel [.flowEntry, .flowSequenceEnd] false false
      else pure .empty
    pure (k, v)

/-- The entries between curly brackets, to the closing one. -/
def flowEntries (fuel : Nat) (first : Bool) : Reader (List (Node × Node)) :=
  match fuel with
  | 0 => failure
  | fuel + 1 => do
    if ← accept .flowMappingEnd then pure []
    else
      if !first then expect .flowEntry
      if ← accept .flowMappingEnd then pure []
      else
        let entry ←
          if ← accept .key then do
            let k ← nodeUnless fuel [.value, .flowEntry, .flowMappingEnd] false false
            let v ←
              if ← accept .value then nodeUnless fuel [.flowEntry, .flowMappingEnd] false false
              else pure .empty
            pure (k, v)
          else do
            let k ← node fuel false false
            pure (k, .empty)
        let others ← flowEntries fuel false
        pure (entry :: others)

end

/-- Reads the directives of a document: a version at most once, and each handle at most once. -/
def directives (fuel : Nat) (version : Bool) : Reader Unit :=
  match fuel with
  | 0 => failure
  | fuel + 1 => do
    match ← peek with
    | some (.version major minor) =>
      if version || major ≠ 1 || (minor ≠ 1 && minor ≠ 2) then failure
      advance
      directives fuel true
    | some (.handle name stem) =>
      let r ← get
      if (r.handles.lookup name).isSome then failure
      set { r with handles := (name, stem) :: r.handles }
      advance
      directives fuel version
    | _ => pure ()

/-- What handles stand for where no directive says otherwise. -/
def defaultHandles : List (String × Bytes) :=
  [("!", Utf8.encode "!"), ("!!", Utf8.encode coreTags)]

/-- Whether a document starts with a line of its own. -/
def isExplicit : List Token → Bool
  | .version _ _ :: _ | .handle _ _ :: _ | .documentStart :: _ => true
  | _ => false

/-- Reads the root of a document, with `count` tokens to come. -/
def root (count : Nat) : Reader Node := do
  let fuel := 3 * count + 3
  if isExplicit (← get).tokens then
    directives fuel false
    expect .documentStart
    modify fun r => { r with handles := r.handles ++ defaultHandles }
    let tokens := (← get).tokens
    if tokens.isEmpty || isExplicit tokens || tokens.head? = some .documentEnd then pure .empty
    else node fuel true false
  else
    modify fun r => { r with handles := defaultHandles }
    node fuel true false

end Reading

/-- The document that a text holds: nothing if it holds none, and a failure if it is malformed or
holds more than one. -/
def Document.read (text : String) : Option (Option Document) := do
  let tokens ← Token.scan text
  if tokens.isEmpty then pure none
  else
    let (root, r) ← (Reading.root tokens.length).run { tokens }
    if r.tokens.all (· = .documentEnd) then pure (some { root, anchored := r.anchored }) else none

end SoapMtom.Yaml
