import SoapMtom.Xml.Token

/-!
# The inside of a tag

A tag holds a name, which ends at the first space, and attributes with quoted values.
`readAttributes` reads them one after the other and stops at the first fault, keeping what it read
before: a namespace declaration in front of a fault still binds its prefix.
-/

namespace SoapMtom.Xml

/-- An attribute as it is written: a value's references are not read. -/
structure RawAttribute where
  key : Bytes
  value : Bytes
deriving DecidableEq, Repr

/-- The attributes of a tag up to the first fault, and that fault. -/
structure RawAttributes where
  attributes : List RawAttribute
  failure : Option AttributeError
deriving DecidableEq, Repr

/-- The attributes with one more in front. -/
def RawAttributes.cons (a : RawAttribute) (as : RawAttributes) : RawAttributes :=
  { as with attributes := a :: as.attributes }

/-- Whether a key ends before the byte. -/
def endsKey (b : UInt8) : Bool := b = 61 || isSpace b

/-- The value between quotes at the head of the bytes, and the bytes after it. `total` is the length
of the tag, from which places are told. -/
def readValue (total : Nat) (bs : Bytes) : Except AttributeError (Bytes × Bytes) :=
  match bs with
  | [] => .error (.expectedValue total)
  | q :: inside =>
    if q = 34 || q = 39 then
      match inside.dropWhile (· != q) with
      | [] => .error (.expectedQuote total q)
      | _ :: rest => .ok (inside.takeWhile (· != q), rest)
    else .error (.unquotedValue (total - bs.length))

theorem length_of_readValue {total : Nat} {bs value rest : Bytes}
    (h : readValue total bs = .ok (value, rest)) : rest.length < bs.length := by
  unfold readValue at h
  split at h
  · simp at h
  · next q inside =>
    split at h
    · have hle := (List.dropWhile_sublist (fun b : UInt8 => b != q) (l := inside)).length_le
      split at h
      · simp at h
      · next hd =>
        simp only [Except.ok.injEq, Prod.mk.injEq] at h
        rw [hd] at hle
        obtain ⟨-, rfl⟩ := h
        simp only [List.length_cons] at hle ⊢
        omega
    · simp at h

/-- Reads attributes from bytes that end a tag of `total` bytes. With `distinct`, a key that was
`seen` before, at the place noted beside it, is a fault; the place of a fault in a value comes
second to that. -/
def readAttributes (total : Nat) (distinct : Bool) (seen : List (Bytes × Nat)) (bs : Bytes) :
    RawAttributes :=
  match _hbs : bs.dropWhile isSpace with
  | [] => { attributes := [], failure := none }
  | first :: after =>
    let key := first :: after.takeWhile (!endsKey ·)
    let place := total - (first :: after).length
    match _hkey : (after.dropWhile (!endsKey ·)).dropWhile isSpace with
    | [] => { attributes := [], failure := some (.expectedEq total) }
    | eq :: afterEq =>
      if eq = 61 then
        match if distinct then seen.lookup key else none with
        | some previous =>
          { attributes := [], failure := some (.duplicated place previous) }
        | none =>
          match _hvalue : readValue total (afterEq.dropWhile isSpace) with
          | .error e => { attributes := [], failure := some e }
          | .ok (value, rest) =>
            .cons { key, value } (readAttributes total distinct ((key, place) :: seen) rest)
      else { attributes := [], failure := some (.expectedEq (total - (eq :: afterEq).length)) }
termination_by bs.length
decreasing_by
  have h₁ := (List.dropWhile_sublist isSpace (l := bs)).length_le
  have h₂ := (List.dropWhile_sublist isSpace (l := after.dropWhile (!endsKey ·))).length_le
  have h₃ := (List.dropWhile_sublist (fun b => !endsKey b) (l := after)).length_le
  have h₄ := (List.dropWhile_sublist isSpace (l := afterEq)).length_le
  have h₅ := length_of_readValue _hvalue
  rw [_hbs] at h₁
  rw [_hkey] at h₂
  simp only [List.length_cons] at h₁ h₂
  omega

/-- The name at the head of a tag. -/
def tagName (tag : Bytes) : Bytes := tag.takeWhile (!isSpace ·)

/-- The attributes of a tag, whose keys differ or do not need to. -/
def tagAttributes (distinct : Bool) (tag : Bytes) : RawAttributes :=
  readAttributes tag.length distinct [] (tag.dropWhile (!isSpace ·))

/-- The name in an end tag, without the spaces after it; a name of spaces only is kept whole. -/
def endTagName (tag : Bytes) : Bytes :=
  let name := (tag.reverse.dropWhile isSpace).reverse
  if name.isEmpty then tag else name

end SoapMtom.Xml
