import SoapMtom.Text.Ascii
import SoapMtom.Text.Quoted
import SoapMtom.Text.Utf8

/-!
# HTTP header fields

A field name is a token, and names that differ in case only are one name; a value is a run of bytes
without controls other than the tab. `Headers` keeps one value under each name. Main statements:

> `get?_insert_self`, `get?_insert_of_ne`: setting a field changes that field alone.
-/

namespace SoapMtom.Http

/-- The characters other than ASCII letters and digits that a name may hold. -/
def tokenMarks : List Char := "!#$%&'*+-.^_|~".toList ++ [Char.ofNat 96]

/-- Whether a name may hold the character. -/
def isTokenChar (c : Char) : Bool :=
  ('a' ≤ c && c ≤ 'z') || ('A' ≤ c && c ≤ 'Z') || ('0' ≤ c && c ≤ '9') || tokenMarks.contains c

/-- The longest name in characters. -/
def maxNameLength : Nat := 65535

/-- Whether the text is the name of a field. -/
def isFieldName (s : String) : Bool :=
  !s.isEmpty && s.length ≤ maxNameLength && s.toList.all isTokenChar

/-- Whether a value may hold the byte. -/
def isValueByte (b : UInt8) : Bool := (32 ≤ b && b ≠ 127) || b = 9

/-- The bytes of a value, if the text is one. -/
def fieldValue? (s : String) : Option Bytes :=
  let bs := Utf8.encode s
  if bs.all isValueByte then some bs else none

/-- Whether the byte is a visible ASCII character, a space or a tab. -/
def isVisible (b : UInt8) : Bool := (32 ≤ b && b < 127) || b = 9

/-- A value as text, if it holds visible ASCII alone. -/
def valueText? (value : Bytes) : Option String :=
  if value.all isVisible then some (String.ofList (value.map fun b => Char.ofNat b.toNat)) else none

/-- Values under lower-case names, each name once. -/
abbrev Headers := List (String × Bytes)

namespace Headers

/-- The value under a name, which is in lower case. -/
def get? (headers : Headers) (name : String) : Option Bytes := headers.lookup name

/-- Sets the value under a name: in its place if there is one already, or else at the end. -/
def insert (headers : Headers) (name : String) (value : Bytes) : Headers :=
  match headers with
  | [] => [(name, value)]
  | (other, old) :: rest =>
    if other = name then (name, value) :: rest else (other, old) :: insert rest name value

theorem get?_cons (field : String × Bytes) (rest : Headers) (name : String) :
    get? (field :: rest) name = if name = field.1 then some field.2 else rest.get? name := by
  obtain ⟨other, value⟩ := field
  by_cases h : name = other
  · simp [get?, h]
  · simp [get?, List.lookup_cons, h, beq_false_of_ne h]

@[simp] theorem get?_insert_self (headers : Headers) (name : String) (value : Bytes) :
    (headers.insert name value).get? name = some value := by
  induction headers with
  | nil => simp [insert, get?_cons]
  | cons field rest ih =>
    by_cases h : field.1 = name
    · simp [insert, get?_cons, h]
    · simp [insert, get?_cons, h, Ne.symm h, ih]

theorem get?_insert_of_ne {name other : String} (headers : Headers) (value : Bytes)
    (h : other ≠ name) : (headers.insert name value).get? other = headers.get? other := by
  induction headers with
  | nil => simp [insert, get?_cons, h]
  | cons field rest ih =>
    by_cases hf : field.1 = name
    · simp [insert, get?_cons, hf, h]
    · simp [insert, get?_cons, hf, ih]

end Headers

end SoapMtom.Http
