import SoapMtom.Xml.Malformed

/-!
# The tokens of a document

`Token.scan` cuts the bytes of a document into tags, runs of text, CDATA sections, comments and the
rest. It looks only for the ends of markup: what stands inside a tag is read later, and so are names
and characters. A document that cannot be cut to its end still has tokens, up to the place of the
failure; whoever reads them meets an earlier fault first.
-/

namespace SoapMtom.Xml

/-- A piece of a document, without the bytes that delimit it. -/
inductive Token where
  /-- A start tag: its name and attributes. -/
  | start (tag : Bytes)
  /-- A tag that is a whole element: its name and attributes. -/
  | empty (tag : Bytes)
  /-- An end tag: its name, and whatever follows it. -/
  | stop (tag : Bytes)
  | text (content : Bytes)
  | cdata (content : Bytes)
  | comment (content : Bytes)
  /-- A processing instruction, or the declaration at the head of a document. -/
  | instruction (content : Bytes)
  | doctype
deriving DecidableEq, Repr

/-- The four blanks of XML: space, tab, carriage return and line feed. -/
def isSpace (b : UInt8) : Bool := b = 32 || b = 9 || b = 13 || b = 10

namespace Token

/-- What stands before and after the `>` that ends a tag. One between quotes does not end it;
`quote` is the quote that is open, and `before` holds the bytes passed, last one first. -/
def breakTag (quote : Option UInt8) (before : Bytes) : Bytes → Option (Bytes × Bytes)
  | [] => none
  | b :: rest =>
    match quote with
    | none =>
      if b = 62 then some (before.reverse, rest)
      else breakTag (if b = 34 || b = 39 then some b else none) (b :: before) rest
    | some q => breakTag (if b = q then none else some q) (b :: before) rest

/-- What stands before and after the `>` that ends a document type: each `<` inside asks for one
more. -/
def breakDoctype (depth : Nat) (before : Bytes) : Bytes → Option (Bytes × Bytes)
  | [] => none
  | b :: rest =>
    if b = 60 then breakDoctype (depth + 1) (b :: before) rest
    else if b = 62 then
      if depth = 0 then some (before.reverse, rest)
      else breakDoctype (depth - 1) (b :: before) rest
    else breakDoctype depth (b :: before) rest

theorem length_of_breakTag {quote : Option UInt8} {before bs content rest : Bytes}
    (h : breakTag quote before bs = some (content, rest)) : rest.length < bs.length := by
  induction bs generalizing quote before with
  | nil => simp [breakTag] at h
  | cons b bs ih =>
    unfold breakTag at h
    split at h
    · split at h
      · simp_all
      · exact Nat.lt_succ_of_lt (ih h)
    · exact Nat.lt_succ_of_lt (ih h)

theorem length_of_breakDoctype {depth : Nat} {before bs content rest : Bytes}
    (h : breakDoctype depth before bs = some (content, rest)) : rest.length < bs.length := by
  induction bs generalizing depth before with
  | nil => simp [breakDoctype] at h
  | cons b bs ih =>
    unfold breakDoctype at h
    split at h
    · exact Nat.lt_succ_of_lt (ih h)
    · split at h
      · split at h
        · simp_all
        · exact Nat.lt_succ_of_lt (ih h)
      · exact Nat.lt_succ_of_lt (ih h)

/-- One token cut off, or the failure to do so; either way the bytes after it. -/
inductive Cut where
  | token (t : Token) (rest : Bytes)
  | failure (cause : MarkupError) (rest : Bytes)
deriving DecidableEq, Repr

/-- The bytes that are not cut yet. -/
def Cut.rest : Cut → Bytes
  | .token _ rest => rest
  | .failure _ rest => rest

/-- Cuts what follows `<!` and starts with a bracket. -/
def cutCdata (bs : Bytes) : Cut :=
  match Bytes.breakOn (Utf8.encode "]]>") bs with
  | none => .failure .cdataNotClosed []
  | some (inside, rest) =>
    match Bytes.dropPrefix? (Utf8.encode "[CDATA[") inside with
    | some content => .token (.cdata content) rest
    | none => .failure .cdataNotClosed rest

/-- Cuts what follows `<!` and starts with a hyphen. The end is sought after two bytes, so that the
opening hyphens do not close the comment as well. -/
def cutComment (bs : Bytes) : Cut :=
  match Bytes.breakOn (Utf8.encode "-->") (bs.drop 2) with
  | none => .failure .commentNotClosed []
  | some (content, rest) =>
    if bs.take 2 = Utf8.encode "--" then .token (.comment content) rest
    else .failure .commentNotClosed rest

/-- The byte in lower case, if it is an ASCII capital. -/
def lowerByte (b : UInt8) : UInt8 := if 65 ≤ b && b ≤ 90 then b + 32 else b

/-- Cuts what follows `<!` and starts with a letter D. The keyword may be in any case, and a name
must follow. -/
def cutDoctype (bs : Bytes) : Cut :=
  match breakDoctype 0 [] bs with
  | none => .failure .doctypeNotClosed []
  | some (inside, rest) =>
    if (inside.take 7).map lowerByte = Utf8.encode "doctype" then
      if (inside.drop 7).all isSpace then .failure .doctypeUnnamed rest
      else .token .doctype rest
    else .failure .doctypeNotClosed rest

/-- Cuts what follows `<`. -/
def cutMarkup (bs : Bytes) : Cut :=
  match bs with
  | [] => .failure .tagNotClosed []
  | 33 :: after =>
    match after with
    | 91 :: _ => cutCdata after
    | 45 :: _ => cutComment after
    | 68 :: _ | 100 :: _ => cutDoctype after
    | _ => .failure .unknownMarkup bs
  | 47 :: after =>
    match breakTag none [] after with
    | none => .failure .tagNotClosed []
    | some (tag, rest) => .token (.stop tag) rest
  | 63 :: 62 :: rest => .failure .instructionNotClosed rest
  | 63 :: after =>
    match Bytes.breakOn (Utf8.encode "?>") after with
    | none => .failure .instructionNotClosed []
    | some (content, rest) => .token (.instruction content) rest
  | _ =>
    match breakTag none [] bs with
    | none => .failure .tagNotClosed []
    | some (tag, rest) =>
      if tag.getLast? = some 47 then .token (.empty tag.dropLast) rest
      else .token (.start tag) rest

/-- Cuts the first token off bytes that start with `b`: markup, or text up to the next markup. -/
def cut (b : UInt8) (after : Bytes) : Cut :=
  if b = 60 then cutMarkup after
  else .token (.text (b :: after.takeWhile (· != 60))) (after.dropWhile (· != 60))

theorem length_cutCdata (bs : Bytes) : (cutCdata bs).rest.length ≤ bs.length := by
  unfold cutCdata
  split
  · simp [Cut.rest]
  · next h =>
    have := congrArg List.length (Bytes.eq_of_breakOn h)
    simp only [List.length_append] at this
    split <;> simp only [Cut.rest] <;> omega

theorem length_cutComment (bs : Bytes) : (cutComment bs).rest.length ≤ bs.length := by
  unfold cutComment
  split
  · simp [Cut.rest]
  · next h =>
    have := congrArg List.length (Bytes.eq_of_breakOn h)
    simp only [List.length_append, List.length_drop] at this
    split <;> simp only [Cut.rest] <;> omega

theorem length_cutDoctype (bs : Bytes) : (cutDoctype bs).rest.length ≤ bs.length := by
  unfold cutDoctype
  split
  · simp [Cut.rest]
  · next h =>
    have := length_of_breakDoctype h
    split
    · split <;> simp only [Cut.rest] <;> omega
    · simp only [Cut.rest]; omega

theorem length_cutMarkup (bs : Bytes) : (cutMarkup bs).rest.length ≤ bs.length := by
  unfold cutMarkup
  split
  · simp [Cut.rest]
  · split
    · exact Nat.le_succ_of_le (length_cutCdata _)
    · exact Nat.le_succ_of_le (length_cutComment _)
    · exact Nat.le_succ_of_le (length_cutDoctype _)
    · exact Nat.le_succ_of_le (length_cutDoctype _)
    · simp [Cut.rest]
  · split
    · simp [Cut.rest]
    · next h =>
      have := length_of_breakTag h
      simp only [Cut.rest, List.length_cons]
      omega
  · simp only [Cut.rest, List.length_cons]
    omega
  · split
    · simp [Cut.rest]
    · next h =>
      have := congrArg List.length (Bytes.eq_of_breakOn h)
      simp only [List.length_append] at this
      simp only [Cut.rest, List.length_cons]
      omega
  · split
    · simp [Cut.rest]
    · next h =>
      have := length_of_breakTag h
      split <;> simp only [Cut.rest] <;> omega

/-- A token takes at least one byte. -/
theorem length_cut (b : UInt8) (after : Bytes) :
    (cut b after).rest.length < (b :: after).length := by
  unfold cut
  split
  · exact Nat.lt_succ_of_le (length_cutMarkup after)
  · have := (List.dropWhile_sublist (fun b : UInt8 => b != 60) (l := after)).length_le
    simp only [Cut.rest, List.length_cons]
    omega

/-- The tokens of a document, each with the bytes after it, and the failure that stopped the
cutting, if any, with the bytes after it. -/
structure Scanned where
  tokens : List (Token × Bytes)
  failure : Option (MarkupError × Bytes)
deriving DecidableEq, Repr

/-- The tokens with one more in front. -/
def Scanned.cons (t : Token × Bytes) (s : Scanned) : Scanned := { s with tokens := t :: s.tokens }

/-- Cuts all bytes. -/
def scan (bs : Bytes) : Scanned :=
  match bs with
  | [] => { tokens := [], failure := none }
  | b :: after =>
    match _h : cut b after with
    | .token t rest => .cons (t, rest) (scan rest)
    | .failure cause rest => { tokens := [], failure := some (cause, rest) }
termination_by bs.length
decreasing_by
  have := length_cut b after
  rw [_h] at this
  exact this

end Token

end SoapMtom.Xml
