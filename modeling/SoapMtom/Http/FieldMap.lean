/-!
# Texts under names, in order

A `FieldMap` holds one text under each name and lists them by name, so that two maps with the same
content are equal. Main statements:

> `get?_insert_self`, `get?_insert_of_ne`: setting a text changes that name alone.
-/

namespace SoapMtom.Http

/-- Texts under names. The names rise, so none occurs twice. -/
structure FieldMap where
  entries : List (String × String)
  rising : entries.Pairwise (·.1 < ·.1)
deriving DecidableEq, Repr

namespace FieldMap

/-- The map without texts. -/
def empty : FieldMap := { entries := [], rising := .nil }

/-- Sets the text under a name in a rising list. -/
def place (name text : String) : List (String × String) → List (String × String)
  | [] => [(name, text)]
  | entry :: rest =>
    if name < entry.1 then (name, text) :: entry :: rest
    else if entry.1 = name then (name, text) :: rest
    else entry :: place name text rest

theorem mem_place {name text : String} {entries : List (String × String)}
    {p : String × String} (h : p ∈ place name text entries) : p = (name, text) ∨ p ∈ entries := by
  induction entries with
  | nil => simpa [place] using h
  | cons entry rest ih => grind [place]

theorem rising_place (name text : String) {entries : List (String × String)}
    (h : entries.Pairwise (·.1 < ·.1)) : (place name text entries).Pairwise (·.1 < ·.1) := by
  induction entries with
  | nil => simp [place]
  | cons entry rest ih =>
    obtain ⟨hfirst, hrest⟩ := List.pairwise_cons.1 h
    unfold place
    split
    · next hlt =>
      refine List.pairwise_cons.2 ⟨fun p hp => ?_, h⟩
      rcases List.mem_cons.1 hp with rfl | hp
      · exact hlt
      · exact String.lt_trans hlt (hfirst p hp)
    · next hnlt =>
      split
      · next heq => exact List.pairwise_cons.2 ⟨fun p hp => heq ▸ hfirst p hp, hrest⟩
      · next hne =>
        refine List.pairwise_cons.2 ⟨fun p hp => ?_, ih hrest⟩
        rcases mem_place hp with rfl | hp
        · exact Std.lt_of_le_of_ne (Std.not_lt.1 hnlt) hne
        · exact hfirst p hp

/-- Sets the text under a name. -/
def insert (m : FieldMap) (name text : String) : FieldMap :=
  { entries := place name text m.entries, rising := rising_place name text m.rising }

/-- The map of these texts; of those under one name the last stays. -/
def ofList (entries : List (String × String)) : FieldMap :=
  entries.foldl (fun m entry => m.insert entry.1 entry.2) empty

/-- The text under a name. -/
def get? (m : FieldMap) (name : String) : Option String :=
  (m.entries.find? (·.1 = name)).map (·.2)

theorem find?_place_self (name text : String) {entries : List (String × String)} :
    (place name text entries).find? (·.1 = name) = some (name, text) := by
  induction entries with
  | nil => simp [place]
  | cons entry rest ih => grind [place]

theorem find?_place_of_ne {name other : String} (text : String) (h : other ≠ name)
    (entries : List (String × String)) :
    (place name text entries).find? (·.1 = other) = entries.find? (·.1 = other) := by
  induction entries with
  | nil => simp [place, Ne.symm h]
  | cons entry rest ih => grind [place]

@[simp] theorem get?_insert_self (m : FieldMap) (name text : String) :
    (m.insert name text).get? name = some text := by
  simp [get?, insert, find?_place_self]

theorem get?_insert_of_ne {name other : String} (m : FieldMap) (text : String) (h : other ≠ name) :
    (m.insert name text).get? other = m.get? other := by
  simp [get?, insert, find?_place_of_ne text h]

end FieldMap

end SoapMtom.Http
