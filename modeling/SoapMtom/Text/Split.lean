/-!
# Cutting a text at a character

`splitAt` cuts at every place where the character stands, `cutAt?` at the first one only. Joining
the pieces with the character gives back the text.

> `eq_of_cutAt?`: `cutAt? c cs = some (before, after)` gives `cs = before ++ c :: after`.
-/

namespace SoapMtom.Text

/-- The pieces between the places where `c` stands; there is one more piece than places. -/
def splitAt (c : Char) : List Char → List (List Char)
  | [] => [[]]
  | d :: rest =>
    if d = c then [] :: splitAt c rest
    else
      match splitAt c rest with
      | [] => [[d]]
      | piece :: others => (d :: piece) :: others

/-- What stands before and after the first `c`, if there is one. -/
def cutAt? (c : Char) : List Char → Option (List Char × List Char)
  | [] => none
  | d :: rest =>
    if d = c then some ([], rest)
    else (cutAt? c rest).map fun (before, after) => (d :: before, after)

/-- A cut loses nothing but the character. -/
theorem eq_of_cutAt? {c : Char} {cs before after : List Char}
    (h : cutAt? c cs = some (before, after)) : cs = before ++ c :: after := by
  induction cs generalizing before with
  | nil => simp [cutAt?] at h
  | cons d rest ih =>
    unfold cutAt? at h
    split at h
    · simp_all
    · obtain ⟨p, hp, he⟩ := Option.map_eq_some_iff.1 h
      simp only [Prod.mk.injEq] at he
      obtain ⟨rfl, rfl⟩ := he
      simp [← ih hp]

end SoapMtom.Text
