import SoapMtom.Proofs.Mime.Part

/-!
# The header ends at the first empty line

With carriage returns before the line feeds, a header ends at its first empty line, whatever the
content is made of. Where its lines end with a line feed alone, an empty line of the other kind is
looked for first, in the content too, and if there is one the header goes on up to it. Main
statement:

> `Part.read_lined_iff`: what can be read is exactly what holds no such line.
-/

namespace SoapMtom.Mime

/-- A name that fits in front of a colon: it is trimmed, and holds neither a colon nor a line
break. -/
structure IsLineName (name : String) : Prop where
  ne_empty : name ≠ ""
  trimmed : Text.trim name = name
  plain : ∀ c ∈ name.toList, c ≠ ':' ∧ c ≠ '\r' ∧ c ≠ '\n'

instance : DecidablePred IsLineName := fun name =>
  have := List.decidableBAll (fun c : Char => c ≠ ':' ∧ c ≠ '\r' ∧ c ≠ '\n') name.toList
  decidable_of_iff (_ ∧ _ ∧ _) ⟨fun ⟨h₁, h₂, h₃⟩ => ⟨h₁, h₂, h₃⟩, fun ⟨h₁, h₂, h₃⟩ => ⟨h₁, h₂, h₃⟩⟩

namespace IsLineName

variable {name : String}

/-- A name starts no line break. -/
theorem exists_cons (h : IsLineName name) : ∃ c cs, name.toList = c :: cs ∧ c ≠ '\r' := by
  have hne : name.toList ≠ [] := fun he => h.ne_empty (String.toList_eq_nil_iff.1 he)
  obtain ⟨c, cs, hname⟩ := List.exists_cons_of_ne_nil hne
  refine ⟨c, cs, hname, (h.plain c ?_).2.1⟩
  rw [hname]
  exact List.mem_cons_self ..

/-- A line with the name and a colon is read as a field, whatever stands after the colon. -/
theorem readLine_eq (h : IsLineName name) (value : List Char) (before : List HeaderField) :
    Part.readLine before (name.toList ++ ':' :: value) =
      .ok ({ name := Text.lower name, value := String.ofList (Text.trimChars value) } ::
        before) := by
  rw [Part.readLine_colon (fun he => h.ne_empty (String.toList_eq_nil_iff.1 he))
    (Text.trimChars_toList h.trimmed) (fun hmem => (h.plain _ hmem).1 rfl), String.ofList_toList]

end IsLineName

/-- A field that fits on a line: its value is trimmed and holds no line break. -/
structure HeaderField.FitsLine (f : HeaderField) : Prop where
  name : IsLineName f.name
  value_trim : Text.trim f.value = f.value
  value_plain : ∀ c ∈ f.value.toList, c ≠ '\r' ∧ c ≠ '\n'

instance (f : HeaderField) : Decidable f.FitsLine :=
  have := List.decidableBAll (fun c : Char => c ≠ '\r' ∧ c ≠ '\n') f.value.toList
  decidable_of_iff (_ ∧ _ ∧ _) ⟨fun ⟨h₁, h₂, h₃⟩ => ⟨h₁, h₂, h₃⟩, fun ⟨h₁, h₂, h₃⟩ => ⟨h₁, h₂, h₃⟩⟩

namespace HeaderField.FitsLine

variable {f : HeaderField}

theorem unbroken (h : f.FitsLine) : ∀ c ∈ f.line, c ≠ '\r' ∧ c ≠ '\n' := by
  intro c hc
  rw [line, List.mem_append, List.mem_cons, List.mem_cons] at hc
  rcases hc with hc | rfl | rfl | hc
  · exact (h.name.plain c hc).2
  · decide
  · decide
  · exact h.value_plain c hc

theorem isHeaderLine (h : f.FitsLine) : IsHeaderLine f.line := by
  obtain ⟨c, cs, hname, hcr⟩ := h.name.exists_cons
  refine ⟨fun hmem => (h.unbroken _ hmem).2 rfl, ⟨c, cs ++ ':' :: ' ' :: f.value.toList, ?_, hcr⟩,
    fun hlast => (h.unbroken _ (List.mem_of_getLast? hlast)).1 rfl⟩
  rw [line, hname]
  rfl

/-- The bytes of a line hold no carriage return. -/
theorem carriageReturn_not_mem (h : f.FitsLine) : 13 ∉ Utf8.encodeChars f.line :=
  fun hmem => (h.unbroken _ (Utf8.mem_of_mem_encodeChars hmem (by decide))).1 (by decide)

theorem readLine_line (h : f.FitsLine) (before : List HeaderField) :
    Part.readLine before f.line = .ok (f.lowered :: before) := by
  rw [line, h.name.readLine_eq, Text.trimChars_cons Text.isBlank_space,
    Text.trimChars_toList h.value_trim, String.ofList_toList]
  rfl

end HeaderField.FitsLine

namespace Part

/-- What was read as a part came apart into a header and its content. -/
theorem exists_separate?_of_read {raw : Bytes} {part : Part} (h : read raw = .ok part) :
    ∃ head, separate? raw = some (head, part.body) := by
  unfold read at h
  split at h
  · cases h
  · next head body hseparate =>
    obtain ⟨text, -, h⟩ := bind_eq_ok.1 h
    obtain ⟨fields, -, h⟩ := bind_eq_ok.1 h
    cases h
    exact ⟨head, hseparate⟩

variable {fields : List HeaderField}

/-- There is no carriage return in a header whose lines end with a line feed. -/
private theorem carriageReturn_not_mem_header (h : ∀ f ∈ fields, f.FitsLine) :
    13 ∉ (fields.map HeaderField.line).flatMap
      (fun line => Utf8.encodeChars line ++ Framing.LineBreak.lineFeed.bytes) ++
        Framing.LineBreak.lineFeed.bytes := by
  intro hmem
  rcases List.mem_append.1 hmem with hmem | hmem
  · obtain ⟨line, hline, hmem⟩ := List.mem_flatMap.1 hmem
    obtain ⟨f, hf, rfl⟩ := List.mem_map.1 hline
    rcases List.mem_append.1 hmem with hmem | hmem
    · exact (h f hf).carriageReturn_not_mem hmem
    · exact absurd hmem (by decide)
  · exact absurd hmem (by decide)

/-- An empty line with carriage returns occurs in the content or not at all. -/
private theorem occursIn_lined (h : ∀ f ∈ fields, f.FitsLine) (content : Bytes) :
    Bytes.occursIn headerEnd (lined .lineFeed (fields.map HeaderField.line) content) =
      Bytes.occursIn headerEnd content :=
  Bytes.occursIn_append (carriageReturn_not_mem_header h) content

/-- A part whose lines end with a line feed is cut at an empty line of the other kind. -/
private theorem separate?_of_occursIn (hne : fields ≠ []) (h : ∀ f ∈ fields, f.FitsLine)
    {content : Bytes} (hoccurs : Bytes.occursIn headerEnd content = true) :
    ∃ head rest,
      separate? (lined .lineFeed (fields.map HeaderField.line) content) = some (head, rest) ∧
        lined .lineFeed (fields.map HeaderField.line) content = head ++ headerEnd ++ rest := by
  obtain ⟨f, others, rfl⟩ := List.exists_cons_of_ne_nil hne
  obtain ⟨hf, -⟩ := List.forall_mem_cons.1 h
  rw [← occursIn_lined h, Bytes.occursIn, Option.isSome_iff_exists] at hoccurs
  obtain ⟨⟨head, rest⟩, hbreak⟩ := hoccurs
  obtain ⟨x, xs, hbytes, hcr, hlf⟩ := hf.isHeaderLine.exists_bytes
  have hfirst : ∃ tail, lined .lineFeed ((f :: others).map HeaderField.line) content =
      x :: tail := by
    rw [List.map_cons, lined_cons, hbytes]
    exact ⟨_, rfl⟩
  obtain ⟨tail, htail⟩ := hfirst
  refine ⟨head, rest, ?_, Bytes.eq_of_breakOn hbreak⟩
  rw [htail] at hbreak ⊢
  rw [separate?_cons hcr hlf, hbreak]
  rfl

/-- A header ends at its first empty line, and the content is what follows it, exactly if no empty
line of the kind that is looked for first comes later. -/
theorem read_lined_iff (hne : fields ≠ []) (h : ∀ f ∈ fields, f.FitsLine)
    (b : Framing.LineBreak) (content : Bytes) :
    read (lined b (fields.map HeaderField.line) content) =
        .ok { fields := fields.map HeaderField.lowered, body := content } ↔
      (b = .lineFeed → Bytes.occursIn headerEnd content = false) := by
  constructor
  · rintro hread rfl
    by_contra hoccurs
    obtain ⟨head, rest, hseparate, hsplit⟩ :=
      separate?_of_occursIn hne h (Bool.not_eq_false _ ▸ hoccurs)
    obtain ⟨head', hseparate'⟩ := exists_separate?_of_read hread
    obtain ⟨-, rfl⟩ := Prod.mk.inj (Option.some.inj (hseparate.symm.trans hseparate'))
    -- the header would have to end with an empty line that has carriage returns
    have hheader := List.append_cancel_right hsplit
    refine carriageReturn_not_mem_header h ?_
    rw [hheader]
    exact List.mem_append_right _ (List.mem_cons_self ..)
  · intro hend
    have hlines : ∀ l ∈ fields.map HeaderField.line, IsHeaderLine l := by
      rw [List.forall_mem_map]
      exact fun f hf => (h f hf).isHeaderLine
    rw [read_lined b hlines, foldlM_lines fun f hf => (h f hf).readLine_line]
    · simp [Except.map]
    · rintro rfl
      have hnone := (occursIn_lined h content).trans (hend rfl)
      rwa [Bytes.occursIn, Option.isSome_eq_false_iff, Option.isNone_iff_eq_none] at hnone

/-- Two fields, with a blank in a name and a colon in a value. -/
def noted : List HeaderField := [⟨"Content-ID", "<a@b>"⟩, ⟨"X Note", "re: a"⟩]

private theorem noted_fitsLine : ∀ f ∈ noted, f.FitsLine := by decide +kernel

theorem read_lined_noted :
    noted ≠ [] ∧ (∀ f ∈ noted, f.FitsLine) ∧
      read (lined .lineFeed (noted.map HeaderField.line) (Utf8.encode "\n\na\r\n\nb\r\n")) =
        .ok { fields := [⟨"content-id", "<a@b>"⟩, ⟨"x note", "re: a"⟩]
              body := Utf8.encode "\n\na\r\n\nb\r\n" } := by
  have hne : noted ≠ [] := List.cons_ne_nil _ _
  refine ⟨hne, noted_fitsLine, ?_⟩
  exact (read_lined_iff hne noted_fitsLine .lineFeed _).2 fun _ => by decide +kernel

/-- A header whose lines end with a line feed may go on into its content. -/
theorem not_read_lined :
    ¬∀ (b : Framing.LineBreak) (fields : List HeaderField) (content : Bytes), fields ≠ [] →
      (∀ f ∈ fields, f.FitsLine) →
        read (lined b (fields.map HeaderField.line) content) =
          .ok { fields := fields.map HeaderField.lowered, body := content } := by
  intro h
  have hread := h .lineFeed noted (Utf8.encode "Dear all:\r\n\r\nhello") (List.cons_ne_nil _ _)
    noted_fitsLine
  have hlost : read (lined .lineFeed (noted.map HeaderField.line)
      (Utf8.encode "Dear all:\r\n\r\nhello")) =
        .ok { fields := [⟨"content-id", "<a@b>"⟩, ⟨"x note", "re: a"⟩, ⟨"dear all", ""⟩]
              body := Utf8.encode "hello" } := by decide +kernel
  rw [hlost] at hread
  exact absurd hread (by decide +kernel)

end Part

end SoapMtom.Mime
