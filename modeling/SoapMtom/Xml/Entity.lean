import SoapMtom.Text.Utf8

/-!
# Escaped characters

Five characters are written as references, in text and in attribute values alike. `escape` writes
them; `resolve` reads these five references and the numeric ones, and names the place of any other
ampersand. Main statement:

> `resolve_escape`: what `escape` wrote is read back as it was.
-/

namespace SoapMtom.Xml

/-- The reference for a character that may not stand for itself. -/
def escapeChar (c : Char) : List Char :=
  if c = '<' then "&lt;".toList
  else if c = '>' then "&gt;".toList
  else if c = '&' then "&amp;".toList
  else if c = '\x27' then "&apos;".toList
  else if c = '\x22' then "&quot;".toList
  else [c]

/-- The text with every such character written as a reference. -/
def escape (s : String) : String := String.ofList (s.toList.flatMap escapeChar)

/-- Why a number names no character. -/
inductive BadCharNumber where
  | sign
  | empty
  | digit
  | tooLarge
  | null
  | notAChar (code : Nat)
deriving DecidableEq, Repr

/-- The wording of these failures. -/
def BadCharNumber.message : BadCharNumber → String
  | .sign => "unexpected number sign"
  | .empty => "cannot parse integer from empty string"
  | .digit => "invalid digit found in string"
  | .tooLarge => "number too large to fit in target type"
  | .null => "0x0 character is not permitted in XML"
  | .notAChar code => s!"`{code}` is not a valid codepoint"

/-- Why an ampersand starts no reference. Places count bytes of the text around it. -/
inductive BadReference where
  | unterminated (first last : Nat)
  | unknown (first last : Nat) (name : String)
  | number (cause : BadCharNumber)
deriving DecidableEq, Repr

/-- The wording of these failures. -/
def BadReference.message : BadReference → String
  | .unterminated first last =>
    s!"Error while escaping character at range {first}..{last}: Cannot find ';' after '&'"
  | .unknown first last name => s!"at {first}..{last}: unrecognized entity `{name}`"
  | .number cause => "invalid character reference: " ++ cause.message

/-- The value of a digit in the base, at most sixteen. -/
def digitValue? (base : Nat) (c : Char) : Option Nat :=
  let value :=
    if '0' ≤ c && c ≤ '9' then some (c.toNat - 48)
    else if 'a' ≤ c && c ≤ 'f' then some (c.toNat - 87)
    else if 'A' ≤ c && c ≤ 'F' then some (c.toNat - 55)
    else none
  value.filter (· < base)

/-- Reads digits into a number of 32 bits, on top of the digits read before. -/
def readNumber (base : Nat) (soFar : Nat) : List Char → Except BadCharNumber Nat
  | [] => .ok soFar
  | c :: rest =>
    match digitValue? base c with
    | none => .error .digit
    | some d =>
      if soFar * base + d < 4294967296 then readNumber base (soFar * base + d) rest
      else .error .tooLarge

/-- An unsigned number: it has a digit, and no sign. -/
def readUnsigned (base : Nat) : List Char → Except BadCharNumber Nat
  | [] => .error .empty
  | '+' :: _ | '-' :: _ => .error .sign
  | cs => readNumber base 0 cs

/-- The character that a numeric reference names: decimal, or hexadecimal after an `x`. -/
def readCharNumber (cs : List Char) : Except BadCharNumber Char := do
  let code ←
    match cs with
    | 'x' :: digits => readUnsigned 16 digits
    | digits => readUnsigned 10 digits
  if code = 0 then throw .null
  if h : code.isValidChar then pure (Char.ofNatAux code h) else throw (.notAChar code)

/-- The character that a named reference stands for. -/
def namedChar? : String → Option Char
  | "lt" => some '<'
  | "gt" => some '>'
  | "amp" => some '&'
  | "apos" => some '\x27'
  | "quot" => some '\x22'
  | _ => none

/-- How many bytes the characters take in UTF-8. -/
def byteLength (cs : List Char) : Nat := cs.foldr (fun c length => c.utf8Size + length) 0

/-- The character named between `&` and `;`; `first` is the place after the ampersand. -/
def readReference (first : Nat) (name : List Char) : Except BadReference Char :=
  match name with
  | '#' :: number => (readCharNumber number).mapError .number
  | _ =>
    match namedChar? (String.ofList name) with
    | some c => .ok c
    | none => .error (.unknown first (first + byteLength name) (String.ofList name))

/-- Reads the references in the characters, which start `offset` bytes into the text; `done` holds
the characters read before, last one first. -/
def resolveFrom (offset : Nat) (done : List Char) (cs : List Char) :
    Except BadReference (List Char) :=
  match cs with
  | [] => .ok done.reverse
  | c :: rest =>
    if c = '&' then
      match _hd : rest.dropWhile (fun d => d != '&' && d != ';') with
      | ';' :: after =>
        let name := rest.takeWhile (fun d => d != '&' && d != ';')
        match readReference (offset + 1) name with
        | .ok d => resolveFrom (offset + byteLength name + 2) (d :: done) after
        | .error e => .error e
      | _ => .error (.unterminated offset (offset + byteLength (c :: rest)))
    else resolveFrom (offset + c.utf8Size) (c :: done) rest
termination_by cs.length
decreasing_by
  · have hle := (List.dropWhile_sublist (fun d => d != '&' && d != ';') (l := rest)).length_le
    rw [_hd] at hle
    simp only [List.length_cons] at hle ⊢
    omega
  · simp

/-- The text with every reference replaced by its character. -/
def resolve (s : String) : Except BadReference String :=
  (resolveFrom 0 [] s.toList).map String.ofList

/-! ## Reading back what was written -/

/-- A named reference is read as its character. -/
theorem resolveFrom_named (offset : Nat) (done name rest : List Char) (c : Char)
    (hname : ∀ d ∈ name, (d != '&' && d != ';') = true)
    (hread : ∀ first, readReference first name = .ok c) :
    ∃ next, resolveFrom offset done ('&' :: name ++ ';' :: rest) =
      resolveFrom next (c :: done) rest := by
  have hdrop : (name ++ ';' :: rest).dropWhile (fun d => d != '&' && d != ';') = ';' :: rest := by
    rw [List.dropWhile_append_of_pos hname]; rfl
  have htake : (name ++ ';' :: rest).takeWhile (fun d => d != '&' && d != ';') = name := by
    rw [List.takeWhile_append_of_pos hname]; simp
  refine ⟨offset + byteLength name + 2, ?_⟩
  rw [List.cons_append, resolveFrom]
  simp only [if_true]
  split
  · next after h =>
    rw [hdrop] at h
    obtain rfl := (List.cons.inj h).2
    simp [htake, hread]
  · next h => exact absurd hdrop (h rest)

theorem resolveFrom_escape (cs done : List Char) (offset : Nat) :
    resolveFrom offset done (cs.flatMap escapeChar) = .ok (done.reverse ++ cs) := by
  induction cs generalizing done offset with
  | nil => simp [resolveFrom]
  | cons c cs ih =>
    rw [List.flatMap_cons]
    have named (name : List Char) (h : escapeChar c = '&' :: name ++ [';'])
        (hname : ∀ d ∈ name, (d != '&' && d != ';') = true)
        (hread : ∀ first, readReference first name = .ok c) :
        resolveFrom offset done (escapeChar c ++ cs.flatMap escapeChar) =
          .ok (done.reverse ++ c :: cs) := by
      obtain ⟨next, hnext⟩ :=
        resolveFrom_named offset done name (cs.flatMap escapeChar) c hname hread
      rw [h, List.append_assoc, List.singleton_append, hnext, ih]
      simp
    by_cases h₁ : c = '<'
    · subst h₁; exact named ['l', 't'] rfl (by simp) fun _ => rfl
    by_cases h₂ : c = '>'
    · subst h₂; exact named ['g', 't'] rfl (by simp) fun _ => rfl
    by_cases h₃ : c = '&'
    · subst h₃; exact named ['a', 'm', 'p'] rfl (by simp) fun _ => rfl
    by_cases h₄ : c = '\x27'
    · subst h₄; exact named ['a', 'p', 'o', 's'] rfl (by simp) fun _ => rfl
    by_cases h₅ : c = '\x22'
    · subst h₅; exact named ['q', 'u', 'o', 't'] rfl (by simp) fun _ => rfl
    have hplain : escapeChar c = [c] := by simp [escapeChar, h₁, h₂, h₃, h₄, h₅]
    rw [hplain, List.singleton_append, resolveFrom, if_neg h₃, ih]
    simp

/-- What was escaped is read back as it was. -/
@[simp] theorem resolve_escape (s : String) : resolve (escape s) = .ok s := by
  simp [resolve, escape, resolveFrom_escape, Except.map]

end SoapMtom.Xml
