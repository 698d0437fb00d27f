import SoapMtom.Proofs.Xml.Tree

/-!
# The names of the recommendation

The production NCName of Namespaces in XML 1.0 lists ranges of code points, while `isName` goes by
the Unicode properties Alphabetic and Numeric. The properties are wider at a few places: a name that
can be written may hold one of the characters `strayStartRanges` and `strayRanges`, and then it is
no NCName. Main statements:

> `isNcName_iff_of_isName`: a name that can be written is an NCName exactly if it has no stray
> character.
>
> `Element.isNcName_iff_of_validate`: so it is for each name in a valid tree.
-/

namespace SoapMtom.Text

/-! ## Ranges without others -/

theorem within_append (c : Char) (ranges others : List CodePointRange) :
    c.within (ranges ++ others) = (c.within ranges || c.within others) :=
  List.any_append

/-- A single code point is a single character. -/
theorem within_singleton (c d : Char) : c.within [(d.toNat, d.toNat)] = decide (c = d) := by
  rw [Bool.eq_iff_iff, decide_eq_true_iff, ← Char.toNat_inj]
  simp [Char.within]
  omega

/-- The parts of a range that are left when another is taken out. -/
def minus (range other : CodePointRange) : List CodePointRange :=
  if range.2 < other.1 || other.2 < range.1 then [range]
  else
    (if range.1 < other.1 then [(range.1, other.1 - 1)] else []) ++
      if other.2 < range.2 then [(other.2 + 1, range.2)] else []

/-- The parts of ranges that are left when others are taken out. -/
def outside (ranges : List CodePointRange) : List CodePointRange → List CodePointRange
  | [] => ranges
  | other :: others => outside (ranges.flatMap (minus · other)) others

theorem within_minus (c : Char) (range other : CodePointRange) :
    c.within (minus range other) = (c.within [range] && !c.within [other]) := by
  rw [Bool.eq_iff_iff, minus]
  split
  · next hapart =>
    rw [Bool.or_eq_true, decide_eq_true_iff, decide_eq_true_iff] at hapart
    simp [Char.within]
    omega
  · next hmeet =>
    rw [Bool.or_eq_true, decide_eq_true_iff, decide_eq_true_iff] at hmeet
    rw [within_append]
    split <;> split <;> simp [Char.within] <;> omega

theorem within_flatMap_minus (c : Char) (ranges : List CodePointRange) (other : CodePointRange) :
    c.within (ranges.flatMap (minus · other)) = (c.within ranges && !c.within [other]) := by
  induction ranges with
  | nil => rfl
  | cons range ranges ih =>
    rw [List.flatMap_cons, within_append, ih, within_minus, ← Bool.and_or_distrib_right,
      ← within_append, List.singleton_append]

/-- The characters left are those of the ranges that none of the others holds. -/
theorem within_outside (c : Char) (ranges others : List CodePointRange) :
    c.within (outside ranges others) = (c.within ranges && !c.within others) := by
  induction others generalizing ranges with
  | nil => exact (Bool.and_true _).symm
  | cons other others ih =>
    rw [outside, ih, within_flatMap_minus,
      ← List.singleton_append (l := others), within_append, Bool.not_or, Bool.and_assoc]

/-- If nothing is left then the others hold every character. -/
theorem within_of_outside_eq_nil {c : Char} {ranges others : List CodePointRange}
    (h : outside ranges others = []) (hc : c.within ranges = true) : c.within others = true := by
  have hleft := within_outside c ranges others
  rw [h, hc, Bool.true_and] at hleft
  exact Bool.not_eq_eq_eq_not.1 hleft.symm

/-- Where ranges are covered by two lists that are apart, one of them has the character exactly if
the other has not. -/
theorem within_eq_not_within {c : Char} {ranges regular stray : List CodePointRange}
    (hcover : outside ranges (regular ++ stray) = []) (hapart : outside stray regular = stray)
    (hc : c.within ranges = true) : c.within regular = !c.within stray := by
  have heither := within_of_outside_eq_nil hcover hc
  have hneither := within_outside c stray regular
  rw [within_append] at heither
  rw [hapart] at hneither
  revert heither hneither
  cases c.within regular <;> cases c.within stray <;> decide

end SoapMtom.Text

namespace SoapMtom.Xml

open Text (CodePointRange within_append within_singleton within_eq_not_within)

/-! ## The production -/

/-- NameStartChar without the colon. -/
def ncNameStartRanges : List CodePointRange := [
    (0x41, 0x5A), (0x5F, 0x5F), (0x61, 0x7A), (0xC0, 0xD6), (0xD8, 0xF6), (0xF8, 0x2FF),
    (0x370, 0x37D), (0x37F, 0x1FFF), (0x200C, 0x200D), (0x2070, 0x218F), (0x2C00, 0x2FEF),
    (0x3001, 0xD7FF), (0xF900, 0xFDCF), (0xFDF0, 0xFFFD), (0x10000, 0xEFFFF)]

/-- NameChar without the colon. -/
def ncNameRanges : List CodePointRange :=
  ncNameStartRanges ++ [(0x2D, 0x2E), (0x30, 0x39), (0xB7, 0xB7), (0x300, 0x36F), (0x203F, 0x2040)]

/-- Whether the text matches NCName, of the fifth edition. -/
def isNcName (s : String) : Bool :=
  match s.toList with
  | [] => false
  | c :: rest => c.within ncNameStartRanges && rest.all (·.within ncNameRanges)

/-! ## Stray characters -/

/-- The characters that `isName` takes first in a name and NCName does not: ordinals, the micro
sign, combining marks and circled letters. -/
def strayStartRanges : List CodePointRange :=
  [(0xAA, 0xAA), (0xB5, 0xB5), (0xBA, 0xBA), (0x345, 0x345), (0x363, 0x36F), (0x24B6, 0x24E9)]

/-- The characters that `isName` takes later in a name and NCName does not: ordinals, the micro
sign, superscript digits, fractions and enclosed letters and numbers. -/
def strayRanges : List CodePointRange := [
    (0xAA, 0xAA), (0xB2, 0xB3), (0xB5, 0xB5), (0xB9, 0xBA), (0xBC, 0xBE), (0x2460, 0x249B),
    (0x24B6, 0x24FF), (0x2776, 0x2793)]

/-- Whether the text has a stray character. -/
def hasStray (s : String) : Bool :=
  match s.toList with
  | [] => false
  | c :: rest => c.within strayStartRanges || rest.any (·.within strayRanges)

/-- The characters that a name may start with, as ranges. -/
def nameStartRanges : List CodePointRange := Text.alphabeticRanges ++ [(0x5F, 0x5F)]

/-- The characters that a name may hold after its first, as ranges. -/
def nameRestRanges : List CodePointRange :=
  Text.alphabeticRanges ++ Text.numericRanges ++ [(0x5F, 0x5F)] ++ [(0x2D, 0x2D)] ++ [(0x2E, 0x2E)]

theorem isNameStart_eq (c : Char) : isNameStart c = c.within nameStartRanges := by
  rw [nameStartRanges, within_append]
  exact congrArg _ (within_singleton c '_').symm

theorem isNameRest_eq (c : Char) : isNameRest c = c.within nameRestRanges := by
  simp only [nameRestRanges, within_append]
  exact congr (congrArg _ (congr (congrArg _ (congrArg _ (within_singleton c '_').symm))
    (within_singleton c '-').symm)) (within_singleton c '.').symm

theorem within_ncNameStartRanges {c : Char} (h : isNameStart c = true) :
    c.within ncNameStartRanges = !c.within strayStartRanges := by
  rw [isNameStart_eq] at h
  exact within_eq_not_within (by decide +kernel) (by decide +kernel) h

theorem within_ncNameRanges {c : Char} (h : isNameRest c = true) :
    c.within ncNameRanges = !c.within strayRanges := by
  rw [isNameRest_eq] at h
  exact within_eq_not_within (by decide +kernel) (by decide +kernel) h

/-! ## Names -/

theorem isNcName_iff_of_isName {s : String} (h : isName s = true) :
    isNcName s = true ↔ hasStray s = false := by
  unfold isName at h
  unfold isNcName hasStray
  cases hs : s.toList with
  | nil =>
    rw [hs] at h
    cases h
  | cons c rest =>
    rw [hs] at h
    dsimp only at h ⊢
    rw [Bool.and_eq_true] at h
    rw [within_ncNameStartRanges h.1, Bool.and_eq_true, Bool.or_eq_false_iff, Bool.not_eq_true',
      List.all_eq_true, List.any_eq_false]
    refine and_congr_right' (forall₂_congr fun d hd => ?_)
    rw [within_ncNameRanges (List.all_eq_true.1 h.2 d hd), Bool.not_eq_true', Bool.not_eq_true]

/-- The names that an element is written with: its own and those of its attributes. -/
def Element.names (e : Element) : List String := e.name :: e.attributes.map (·.name)

/-- In a valid tree each name, at any depth, is an NCName exactly if it has no stray character. -/
theorem Element.isNcName_iff_of_validate {e : Element} (h : e.validate = .ok ()) :
    ∀ x ∈ e.subtree, ∀ s ∈ x.names, isNcName s = true ↔ hasStray s = false := by
  intro x hx s hs
  have hnames := checkNames_eq_ok.1 ((validate_eq_ok e).1 h x hx)
  rcases List.mem_cons.1 hs with rfl | hs
  · exact isNcName_iff_of_isName hnames.1
  · obtain ⟨a, ha, rfl⟩ := List.mem_map.1 hs
    exact isNcName_iff_of_isName (hnames.2 a ha)

/-- An area, with a unit that is no NCName below names that are. -/
def area : Element :=
  (Element.named "Größe").withChild
    { name := "m²", attributes := [{ name := "zoll-breite", value := "3" }] }

theorem isNcName_iff_area :
    area.validate = .ok () ∧
      ∀ x ∈ area.subtree, ∀ s ∈ x.names, isNcName s = true ↔ hasStray s = false := by
  have hvalid : area.validate = .ok () := by
    rw [Element.validate_eq_ok]
    simp only [checkNames_eq_ok]
    decide +kernel
  exact ⟨hvalid, Element.isNcName_iff_of_validate hvalid⟩

example : area.subtree.map (·.names.map isNcName) = [[true], [false, true]] := by decide

/-- A valid tree may have a name that is no NCName: the feminine ordinal is alphabetic. -/
theorem not_isNcName_of_validate :
    ¬∀ e : Element, e.validate = .ok () → ∀ x ∈ e.subtree, ∀ s ∈ x.names, isNcName s = true := by
  intro h
  have hname := h (.named "ª") rfl _ (Element.mem_subtree_self _) "ª"
    (List.mem_cons_self ..)
  revert hname
  decide

end SoapMtom.Xml
