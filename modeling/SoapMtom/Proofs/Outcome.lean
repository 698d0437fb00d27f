import Mathlib.Data.List.Forall2
import Mathlib.Data.List.Perm.Basic

/-!
# Steps that succeed

A chain of steps succeeds when each of its steps does. The lemmas here take such a chain apart, and
leave the failures alone.
-/

namespace SoapMtom

universe u v w

variable {ε : Type u} {α β : Type v}

theorem bind_eq_ok {x : Except ε α} {f : α → Except ε β} {b : β} :
    x >>= f = .ok b ↔ ∃ a, x = .ok a ∧ f a = .ok b := by
  cases x with
  | error e =>
    constructor
    · intro h
      cases h
    · rintro ⟨a, h, -⟩
      cases h
  | ok a =>
    constructor
    · intro h
      exact ⟨a, rfl, h⟩
    · rintro ⟨a', h, hf⟩
      cases h
      exact hf

theorem mapError_eq_ok {ε' : Type w} {x : Except ε α} {f : ε → ε'} {a : α} :
    x.mapError f = .ok a ↔ x = .ok a := by
  cases x with
  | error e => simp [Except.mapError]
  | ok b => simp [Except.mapError]

theorem map_eq_ok {x : Except ε α} {f : α → β} {b : β} :
    x.map f = .ok b ↔ ∃ a, x = .ok a ∧ f a = b := by
  cases x with
  | error e => simp [Except.map]
  | ok a => simp [Except.map]

/-- What is read from an optional value succeeds if it does where there is one. -/
theorem option_mapM_map {α β γ : Type*} {write : α → β} {read : β → Except ε γ} {kept : α → γ}
    {o : Option α} (h : ∀ a ∈ o, read (write a) = .ok (kept a)) :
    (o.map write).mapM read = .ok (o.map kept) := by
  cases o with
  | none => rfl
  | some a =>
    rw [Option.map_some, Option.mapM_some, h a rfl]
    rfl

/-- In two lists that correspond, whatever stands on the right has its place on the left. -/
theorem exists_of_forall₂ {α β : Type*} {R : α → β → Prop} {as : List α} {bs : List β}
    (h : List.Forall₂ R as bs) {b : β} (hb : b ∈ bs) : ∃ a ∈ as, R a b := by
  induction h with
  | nil => cases hb
  | cons hab _ ih =>
    rcases List.mem_cons.1 hb with rfl | hb
    · exact ⟨_, List.mem_cons_self .., hab⟩
    · obtain ⟨a, ha, hab⟩ := ih hb
      exact ⟨a, List.mem_cons_of_mem _ ha, hab⟩

/-- What is found from the back is the last of its kind. -/
theorem exists_of_find?_reverse {α : Type*} {p : α → Bool} {as : List α} {a : α}
    (h : as.reverse.find? p = some a) :
    p a = true ∧ ∃ before after, as = before ++ a :: after ∧ ∀ b ∈ after, p b = false := by
  obtain ⟨ha, after, before, hreverse, hnone⟩ := List.find?_eq_some_iff_append.1 h
  refine ⟨ha, before.reverse, after.reverse, ?_, fun b hb => ?_⟩
  · rw [← List.reverse_reverse as, hreverse]
    simp
  · simpa using hnone b (List.mem_reverse.1 hb)

/-- A list has a corresponding one if each of its elements has one. -/
theorem exists_forall₂ {α β : Type*} {R : α → β → Prop} {as : List α}
    (h : ∀ a ∈ as, ∃ b, R a b) : ∃ bs, List.Forall₂ R as bs := by
  induction as with
  | nil => exact ⟨[], .nil⟩
  | cons a as ih =>
    obtain ⟨⟨b, hb⟩, has⟩ := List.forall_mem_cons.1 h
    obtain ⟨bs, hbs⟩ := ih has
    exact ⟨b :: bs, .cons hb hbs⟩

/-- A step for each element of a list succeeds when all of them do. -/
theorem mapM_eq_ok {α : Type w} {f : α → Except ε β} {as : List α} {bs : List β} :
    as.mapM f = .ok bs ↔ List.Forall₂ (fun a b => f a = .ok b) as bs := by
  induction as generalizing bs with
  | nil =>
    rw [List.mapM_nil, List.forall₂_nil_left_iff]
    constructor
    · intro h
      cases h
      rfl
    · rintro rfl
      rfl
  | cons a as ih =>
    rw [List.mapM_cons, bind_eq_ok]
    constructor
    · rintro ⟨b, hb, h⟩
      obtain ⟨bs', hbs, h⟩ := bind_eq_ok.1 h
      cases h
      exact .cons hb (ih.1 hbs)
    · intro h
      cases h with
      | cons hb hbs => exact ⟨_, hb, bind_eq_ok.2 ⟨_, ih.2 hbs, rfl⟩⟩

/-- So the results are there as soon as each step has one. -/
theorem exists_mapM_eq_ok {α : Type w} {f : α → Except ε β} {as : List α}
    (h : ∀ a ∈ as, ∃ b, f a = .ok b) : ∃ bs, as.mapM f = .ok bs := by
  obtain ⟨bs, hbs⟩ := exists_forall₂ h
  exact ⟨bs, mapM_eq_ok.2 hbs⟩

/-- In another order the same steps succeed, and their results are the same in another order. -/
theorem exists_mapM_perm {α : Type w} {f : α → Except ε β} {as as' : List α} {bs : List β}
    (hperm : as.Perm as') (h : as.mapM f = .ok bs) :
    ∃ bs', as'.mapM f = .ok bs' ∧ bs.Perm bs' := by
  obtain ⟨bs', hbs', hperm'⟩ := List.perm_comp_forall₂ hperm.symm (mapM_eq_ok.1 h)
  exact ⟨bs', mapM_eq_ok.2 hbs', hperm'.symm⟩

/-- A step that fails for a list fails for one of its elements. -/
theorem exists_of_mapM_eq_error {α : Type w} {f : α → Except ε β} {as : List α} {cause : ε}
    (h : as.mapM f = .error cause) : ∃ a ∈ as, f a = .error cause := by
  induction as with
  | nil => cases h
  | cons a as ih =>
    rw [List.mapM_cons] at h
    cases ha : f a with
    | error cause' =>
      rw [ha] at h
      obtain rfl : cause' = cause := Except.error.inj h
      exact ⟨a, List.mem_cons_self .., ha⟩
    | ok b =>
      rw [ha] at h
      cases has : as.mapM f with
      | error cause' =>
        rw [has] at h
        obtain rfl : cause' = cause := Except.error.inj h
        obtain ⟨a', ha', hfail⟩ := ih has
        exact ⟨a', List.mem_cons_of_mem _ ha', hfail⟩
      | ok bs =>
        rw [has] at h
        cases h

/-- A check of each element of a list succeeds when none of them fails. -/
theorem forM_eq_ok {α : Type w} {f : α → Except ε PUnit} {as : List α} :
    as.forM f = .ok ⟨⟩ ↔ ∀ a ∈ as, f a = .ok ⟨⟩ := by
  induction as with
  | nil =>
    constructor
    · intro _ a ha
      cases ha
    · exact fun _ => rfl
  | cons a as ih =>
    rw [List.forall_mem_cons, ← ih]
    constructor
    · intro h
      obtain ⟨⟨⟩, ha, has⟩ := bind_eq_ok.1 h
      exact ⟨ha, has⟩
    · rintro ⟨ha, has⟩
      exact bind_eq_ok.2 ⟨_, ha, has⟩

/-- What every step keeps, and may depend on the steps still to come, holds after all of them. -/
theorem foldlM_invariant_rest {α : Type w} {β : Type u} {ε : Type v} {step : β → α → Except ε β}
    {P : List α → β → Prop}
    (hstep : ∀ a rest b b', P (a :: rest) b → step b a = .ok b' → P rest b') {l : List α}
    {b b' : β} (hb : P l b) (h : l.foldlM step b = .ok b') : P [] b' := by
  induction l generalizing b with
  | nil =>
    cases h
    exact hb
  | cons a rest ih =>
    rw [List.foldlM_cons] at h
    obtain ⟨middle, ha, h⟩ := bind_eq_ok.1 h
    exact ih (hstep a rest b middle hb ha) h

/-- What every step keeps holds after all of them. -/
theorem foldlM_invariant {α : Type w} {β : Type u} {ε : Type v} {step : β → α → Except ε β}
    {P : β → Prop} {l : List α} (hstep : ∀ a ∈ l, ∀ b b', P b → step b a = .ok b' → P b')
    {b b' : β} (hb : P b) (h : l.foldlM step b = .ok b') : P b' := by
  have hrest : (∀ a ∈ ([] : List α), a ∈ l) ∧ P b' := by
    refine foldlM_invariant_rest (P := fun rest b => (∀ a ∈ rest, a ∈ l) ∧ P b)
      (fun a rest b b' hP ha => ?_) ⟨fun a ha => ha, hb⟩ h
    obtain ⟨⟨hmem, hrest⟩, hb⟩ := And.imp_left List.forall_mem_cons.1 hP
    exact ⟨hrest, hstep a hmem b b' hb ha⟩
  exact hrest.2

/-! ## Two runs side by side -/

/-- Both runs fail with the same cause, or both succeed and their results are related. -/
inductive SameOutcome {γ : Type v} (R : β → γ → Prop) : Except ε β → Except ε γ → Prop
  | error (cause : ε) : SameOutcome R (.error cause) (.error cause)
  | ok {b : β} {c : γ} (h : R b c) : SameOutcome R (.ok b) (.ok c)

namespace SameOutcome

variable {γ δ : Type v} {R : β → γ → Prop}

theorem of_eq {x y : Except ε β} (h : x = y) : SameOutcome Eq x y := by
  subst h
  cases x with
  | error cause => exact .error cause
  | ok b => exact .ok rfl

theorem eq {x y : Except ε β} (h : SameOutcome Eq x y) : x = y := by
  cases h with
  | error cause => rfl
  | ok h => rw [h]

theorem mapError {ε' : Type u} {x : Except ε β} {y : Except ε γ} (h : SameOutcome R x y)
    (f : ε → ε') : SameOutcome R (x.mapError f) (y.mapError f) := by
  cases h with
  | error cause => exact .error (f cause)
  | ok h => exact .ok h

/-- Related results are what the next steps start from. -/
theorem bind {S : α → δ → Prop} {x : Except ε β} {y : Except ε γ} (h : SameOutcome R x y)
    {f : β → Except ε α} {g : γ → Except ε δ} (hnext : ∀ b c, R b c → SameOutcome S (f b) (g c)) :
    SameOutcome S (x >>= f) (y >>= g) := by
  cases h with
  | error cause => exact .error cause
  | ok h => exact hnext _ _ h

/-- A step for each element of two lists, element by element. -/
theorem mapM {α α' : Type w} {f : α → Except ε β} {g : α' → Except ε γ} {as : List α}
    {as' : List α'} (h : List.Forall₂ (fun a a' => SameOutcome R (f a) (g a')) as as') :
    SameOutcome (List.Forall₂ R) (as.mapM f) (as'.mapM g) := by
  induction h with
  | nil => exact .ok .nil
  | cons hstep _ ih =>
    rw [List.mapM_cons, List.mapM_cons]
    refine hstep.bind fun b c hbc => ih.bind fun bs cs hrest => ?_
    exact .ok (.cons hbc hrest)

end SameOutcome

end SoapMtom
