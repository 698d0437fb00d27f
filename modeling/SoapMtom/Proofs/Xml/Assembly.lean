import Mathlib.Data.List.Induction
import Mathlib.Data.List.Nodup
import SoapMtom.Xml.Element

/-!
# Elements made step by step

The methods that add to an element keep its attributes as a map. `Attribute.LeftBy` says so by the
assignments alone: of those for one namespace and name the last is left, and it stands where the
first one put it. A child node comes behind the others, and an empty text is none. Main statements:

> `Attribute.leftBy_assignAll`: the attributes that assignments leave, one after another.
>
> `Element.consists_of_steps`: an element consists of what its steps assigned and added.
-/

namespace SoapMtom.Xml

/-! ## Setting an attribute -/

/-- What tells two attributes of an element apart. -/
abbrev Attribute.key (a : Attribute) : Option String × String := (a.ns, a.name)

namespace Element

variable {a b : Attribute} {attributes : List Attribute}

theorem assign_cons_of_key_eq (h : b.key = a.key) :
    assign a (b :: attributes) = a :: attributes := by
  obtain ⟨hns, hname⟩ := Prod.mk.inj h
  rw [assign, if_pos ⟨hname, hns⟩, hname, hns]

theorem assign_cons_of_key_ne (h : b.key ≠ a.key) :
    assign a (b :: attributes) = b :: assign a attributes := by
  rw [assign, if_neg fun hsame => h (Prod.ext hsame.2 hsame.1)]

/-- An attribute that is set takes the place of the one it stands for, or comes last. -/
theorem keys_assign (a : Attribute) (attributes : List Attribute) :
    (assign a attributes).map Attribute.key =
      if a.key ∈ attributes.map Attribute.key then attributes.map Attribute.key
      else attributes.map Attribute.key ++ [a.key] := by
  induction attributes with
  | nil => rfl
  | cons b rest ih =>
    by_cases hkey : b.key = a.key
    · rw [assign_cons_of_key_eq hkey, if_pos (List.mem_map.2 ⟨b, List.mem_cons_self .., hkey⟩),
        List.map_cons, List.map_cons, hkey]
    · have hmem : a.key ∈ (b :: rest).map Attribute.key ↔ a.key ∈ rest.map Attribute.key := by
        rw [List.map_cons, List.mem_cons, or_iff_right (Ne.symm hkey)]
      rw [assign_cons_of_key_ne hkey, List.map_cons, ih]
      simp only [hmem]
      split <;> rfl

/-- So attributes stay distinct. -/
theorem nodup_assign (a : Attribute) (h : (attributes.map Attribute.key).Nodup) :
    ((assign a attributes).map Attribute.key).Nodup := by
  rw [keys_assign]
  split
  · exact h
  · next hnew =>
    rw [← List.concat_eq_append]
    exact h.concat hnew

/-- Each of them is called like one that was there or like the one that is set. -/
theorem key_of_mem_assign (hb : b ∈ assign a attributes) :
    b.key = a.key ∨ ∃ c ∈ attributes, c.key = b.key := by
  have hkey : b.key ∈ (assign a attributes).map Attribute.key := List.mem_map_of_mem hb
  rw [keys_assign] at hkey
  split at hkey
  · exact .inr (List.mem_map.1 hkey)
  · rw [List.mem_append, List.mem_singleton] at hkey
    exact hkey.symm.imp_right List.mem_map.1

theorem mem_assign (a : Attribute) (attributes : List Attribute) : a ∈ assign a attributes := by
  induction attributes with
  | nil => exact List.mem_singleton_self a
  | cons b rest ih =>
    by_cases hkey : b.key = a.key
    · rw [assign_cons_of_key_eq hkey]
      exact List.mem_cons_self ..
    · rw [assign_cons_of_key_ne hkey]
      exact List.mem_cons_of_mem _ ih

/-- Where attributes are distinct, the ones with another namespace or name are left alone, and the
one with the same is gone. -/
theorem mem_assign_iff (h : (attributes.map Attribute.key).Nodup) :
    b ∈ assign a attributes ↔ b = a ∨ b ∈ attributes ∧ b.key ≠ a.key := by
  induction attributes with
  | nil => simp [assign]
  | cons c rest ih =>
    rw [List.map_cons, List.nodup_cons] at h
    obtain ⟨hc, hrest⟩ := h
    by_cases hkey : c.key = a.key
    · -- the attribute is replaced here, and no other one behind has its key
      have hother : ∀ d ∈ rest, d.key ≠ a.key := fun d hd he =>
        hc (List.mem_map.2 ⟨d, hd, he.trans hkey.symm⟩)
      rw [assign_cons_of_key_eq hkey, List.mem_cons, List.mem_cons]
      constructor
      · rintro (rfl | hb)
        · exact .inl rfl
        · exact .inr ⟨.inr hb, hother b hb⟩
      · rintro (rfl | ⟨rfl | hb, hne⟩)
        · exact .inl rfl
        · exact absurd hkey hne
        · exact .inr hb
    · rw [assign_cons_of_key_ne hkey, List.mem_cons, List.mem_cons, ih hrest]
      constructor
      · rintro (rfl | rfl | ⟨hb, hne⟩)
        · exact .inr ⟨.inl rfl, hkey⟩
        · exact .inl rfl
        · exact .inr ⟨.inr hb, hne⟩
      · rintro (rfl | ⟨rfl | hb, hne⟩)
        · exact .inr (.inl rfl)
        · exact .inl rfl
        · exact .inr (.inr ⟨hb, hne⟩)

end Element

/-! ## Assignments, one after another -/

/-- The attributes after assignments, one after another. -/
def Element.assignAll (attributes assigned : List Attribute) : List Attribute :=
  assigned.foldl (fun attributes a => assign a attributes) attributes

namespace Attribute

variable {a b : Attribute} {assigned attributes : List Attribute}

/-- The attribute is assigned, and behind that nothing is assigned to its namespace and name. -/
def IsLast (assigned : List Attribute) (a : Attribute) : Prop :=
  ∃ before after, assigned = before ++ a :: after ∧ ∀ b ∈ after, b.key ≠ a.key

theorem isLast_concat :
    IsLast (assigned ++ [a]) b ↔ b = a ∨ IsLast assigned b ∧ b.key ≠ a.key := by
  constructor
  · rintro ⟨before, after, heq, hafter⟩
    rcases List.eq_nil_or_concat after with rfl | ⟨after, c, rfl⟩
    · exact .inl (List.singleton_inj.1 (List.append_inj_right' heq rfl)).symm
    · rw [List.concat_eq_append, ← List.cons_append, ← List.append_assoc] at heq
      obtain ⟨rfl, hc⟩ := List.append_inj' heq rfl
      obtain rfl := List.singleton_inj.1 hc
      rw [List.concat_eq_append, List.forall_mem_append, List.forall_mem_singleton] at hafter
      exact .inr ⟨⟨before, after, rfl, hafter.1⟩, hafter.2.symm⟩
  · rintro (rfl | ⟨⟨before, after, rfl, hafter⟩, hne⟩)
    · exact ⟨assigned, [], rfl, List.forall_mem_nil _⟩
    · refine ⟨before, after ++ [a], by rw [List.append_assoc, List.cons_append], ?_⟩
      rw [List.forall_mem_append, List.forall_mem_singleton]
      exact ⟨hafter, hne.symm⟩

/-- To whatever something is assigned, something is assigned last. -/
theorem exists_isLast (h : b ∈ assigned) : ∃ a, IsLast assigned a ∧ a.key = b.key := by
  induction assigned using List.reverseRecOn with
  | nil => cases h
  | append_singleton assigned c ih =>
    by_cases hkey : c.key = b.key
    · exact ⟨c, isLast_concat.2 (.inl rfl), hkey⟩
    · have hmem : b ∈ assigned := by
        rcases List.mem_append.1 h with h | h
        · exact h
        · exact absurd (congrArg key (List.mem_singleton.1 h)).symm hkey
      obtain ⟨a, ha, hab⟩ := ih hmem
      exact ⟨a, isLast_concat.2 (.inr ⟨ha, fun he => hkey (he.symm.trans hab)⟩), hab⟩

/-- The attributes that assignments leave to an element that had none. -/
structure LeftBy (assigned attributes : List Attribute) : Prop where
  /-- No two of them have the same namespace and name. -/
  distinct : (attributes.map key).Nodup
  /-- They are in the order in which something was first assigned to their namespaces and names. -/
  ordered : (attributes.map key).Pairwise fun k l =>
    (assigned.map key).idxOf k < (assigned.map key).idxOf l
  /-- Each is what was assigned last, and none is missing. -/
  mem_iff : ∀ a, a ∈ attributes ↔ IsLast assigned a

theorem LeftBy.nil : LeftBy [] [] where
  distinct := List.nodup_nil
  ordered := .nil
  mem_iff a := by simp [IsLast]

theorem LeftBy.mem_keys (h : LeftBy assigned attributes) {k : Option String × String} :
    k ∈ attributes.map key ↔ k ∈ assigned.map key := by
  rw [List.mem_map, List.mem_map]
  constructor
  · rintro ⟨a, ha, rfl⟩
    obtain ⟨before, after, rfl, -⟩ := (h.mem_iff a).1 ha
    exact ⟨a, List.mem_append_right _ (List.mem_cons_self ..), rfl⟩
  · rintro ⟨b, hb, rfl⟩
    obtain ⟨a, ha, hab⟩ := exists_isLast hb
    exact ⟨a, (h.mem_iff a).2 ha, hab⟩

/-- One more assignment. -/
theorem LeftBy.assign (h : LeftBy assigned attributes) (a : Attribute) :
    LeftBy (assigned ++ [a]) (Element.assign a attributes) where
  distinct := Element.nodup_assign a h.distinct
  ordered := by
    -- an assignment at the end does not change where a key was assigned first
    have hplace : ∀ k ∈ attributes.map key,
        ((assigned ++ [a]).map key).idxOf k = (assigned.map key).idxOf k := by
      intro k hk
      rw [List.map_append, List.idxOf_append_of_mem (h.mem_keys.1 hk)]
    have hold : (attributes.map key).Pairwise fun k l =>
        ((assigned ++ [a]).map key).idxOf k < ((assigned ++ [a]).map key).idxOf l := by
      refine h.ordered.imp_of_mem fun hk hl hlt => ?_
      rw [hplace _ hk, hplace _ hl]
      exact hlt
    rw [Element.keys_assign]
    split
    · exact hold
    · -- the new key was never assigned before, so its first place is the last one
      next hnew =>
      refine List.pairwise_append.2 ⟨hold, List.pairwise_singleton .., fun k hk l hl => ?_⟩
      obtain rfl := List.mem_singleton.1 hl
      have hnotMem : a.key ∉ assigned.map key := fun hmem => hnew (h.mem_keys.2 hmem)
      rw [hplace k hk, List.map_append, List.idxOf_append_of_notMem hnotMem]
      exact Nat.lt_add_right _ (List.idxOf_lt_length_of_mem (h.mem_keys.1 hk))
  mem_iff b := by rw [Element.mem_assign_iff h.distinct, h.mem_iff, isLast_concat]

theorem leftBy_assignAll (assigned : List Attribute) :
    LeftBy assigned (Element.assignAll [] assigned) := by
  induction assigned using List.reverseRecOn with
  | nil => exact .nil
  | append_singleton assigned a ih =>
    rw [Element.assignAll, List.foldl_append]
    exact ih.assign a

end Attribute

/-! ## Steps -/

/-- The text as a child node, if it is not empty. -/
def Node.ofText? (s : String) : Option Node := if s.isEmpty then none else some (.text s)

theorem Node.isEmptyText_of_ofText? {s : String} {n : Node} (h : ofText? s = some n) :
    n.isEmptyText = false := by
  unfold ofText? at h
  split at h
  · cases h
  · next hs =>
    cases h
    exact Bool.eq_false_iff.2 hs

namespace Element

/-- A step that adds to an element. Whether a child element is added in place or to a value that is
handed on, the step is the same. -/
inductive Step where
  | withAttribute (name value : String)
  | withNamespacedAttribute (ns name value : String)
  | setAttribute (ns : Option String) (name value : String)
  | withChild (child : Element)
  | withText (s : String)
  | withAttachment (a : Attachment)
  | withTextChild (name s : String)

/-- The element after a step. -/
def apply (e : Element) : Step → Element
  | .withAttribute name value => e.withAttribute name value
  | .withNamespacedAttribute ns name value => e.withNamespacedAttribute ns name value
  | .setAttribute ns name value => e.setAttribute ns name value
  | .withChild child => e.withChild child
  | .withText s => e.withText s
  | .withAttachment a => e.withAttachment a
  | .withTextChild name s => e.withTextChild name s

/-- The element after steps, one after another. -/
def after (e : Element) (steps : List Step) : Element := steps.foldl apply e

/-- An element to start from, in a namespace of its own if one is given. -/
def bare : (ns : Option String) → (name : String) → Element
  | none, name => named name
  | some ns, name => qualified ns name

namespace Step

/-- What the step assigns. -/
def assigned? : Step → Option Attribute
  | .withAttribute name value => some { name, value }
  | .withNamespacedAttribute ns name value => some { ns := some ns, name, value }
  | .setAttribute ns name value => some { ns, name, value }
  | .withChild _ | .withText _ | .withAttachment _ | .withTextChild .. => none

/-- The child node that the step adds. -/
def added? : Step → Option Node
  | .withAttribute .. | .withNamespacedAttribute .. | .setAttribute .. => none
  | .withChild child => some (.element child)
  | .withText s => Node.ofText? s
  | .withAttachment a => some (.attachment a)
  | .withTextChild name s => some (.element { name, children := (Node.ofText? s).toList })

theorem isEmptyText_of_added? {step : Step} {n : Node} (h : step.added? = some n) :
    n.isEmptyText = false := by
  cases step with
  | withAttribute | withNamespacedAttribute | setAttribute => cases h
  | withChild | withAttachment | withTextChild =>
    cases h
    rfl
  | withText s => exact Node.isEmptyText_of_ofText? h

end Step

theorem withText_eq (e : Element) (s : String) :
    e.withText s = { e with children := e.children ++ (Node.ofText? s).toList } := by
  obtain ⟨ns, name, attributes, children⟩ := e
  unfold withText Node.ofText?
  split
  · rw [Option.toList_none, List.append_nil]
  · rfl

/-- A step sets what it assigns, adds its child node, and does nothing else. -/
theorem apply_eq (e : Element) (step : Step) :
    e.apply step =
      { e with
        attributes := assignAll e.attributes step.assigned?.toList
        children := e.children ++ step.added?.toList } := by
  cases step with
  | withAttribute | withNamespacedAttribute | setAttribute =>
    rw [Step.added?, Option.toList_none, List.append_nil]
    rfl
  | withChild | withAttachment => rfl
  | withText s => exact e.withText_eq s
  | withTextChild name s =>
    rw [apply, withTextChild, withText_eq]
    rfl

/-- So do steps, one after another. -/
theorem after_eq (e : Element) (steps : List Step) :
    e.after steps =
      { e with
        attributes := assignAll e.attributes (steps.filterMap Step.assigned?)
        children := e.children ++ steps.filterMap Step.added? } := by
  induction steps generalizing e with
  | nil =>
    obtain ⟨ns, name, attributes, children⟩ := e
    rw [List.filterMap_nil, List.filterMap_nil, List.append_nil]
    rfl
  | cons step steps ih =>
    rw [after, List.foldl_cons, ← after, ih, apply_eq]
    simp only [assignAll, List.filterMap_eq_flatMap_toList, List.flatMap_cons, List.foldl_append,
      List.append_assoc]

/-- Whatever steps made an element, its attributes are those that the assignments among them leave,
with or without the other steps, and its children are the nodes that were added, in order, none of
them an empty text. -/
theorem consists_of_steps (ns : Option String) (name : String) (steps : List Step) :
    Attribute.LeftBy (steps.filterMap Step.assigned?) ((bare ns name).after steps).attributes ∧
      ((bare ns name).after (steps.filter (·.assigned?.isSome))).attributes =
        ((bare ns name).after steps).attributes ∧
      ((bare ns name).after steps).children = steps.filterMap Step.added? ∧
      ∀ n ∈ ((bare ns name).after steps).children, n.isEmptyText = false := by
  have hattributes : (bare ns name).attributes = [] := by cases ns <;> rfl
  have hchildren : (bare ns name).children = [] := by cases ns <;> rfl
  have hassigned : (steps.filter (·.assigned?.isSome)).filterMap Step.assigned? =
      steps.filterMap Step.assigned? := by
    rw [List.filterMap_filter]
    refine List.filterMap_congr fun step _ => ?_
    cases step.assigned? <;> rfl
  rw [after_eq, after_eq, hattributes, hchildren, hassigned, List.nil_append]
  refine ⟨Attribute.leftBy_assignAll _, rfl, rfl, fun n hn => ?_⟩
  obtain ⟨step, -, hstep⟩ := List.mem_filterMap.1 hn
  exact Step.isEmptyText_of_added? hstep

/-- One local name with and without a namespace: an attribute that is set again keeps its place. -/
example :
    ((bare none "r").after
      [.withAttribute "a" "1", .withNamespacedAttribute "u" "a" "2", .withText "",
        .setAttribute none "a" "3", .withTextChild "t" ""]) =
      { name := "r"
        attributes := [{ name := "a", value := "3" }, { ns := some "u", name := "a", value := "2" }]
        children := [.element { name := "t" }] } := by
  decide

end Element

end SoapMtom.Xml
