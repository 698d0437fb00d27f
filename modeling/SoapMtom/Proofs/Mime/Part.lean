import SoapMtom.Proofs.Mime.HeaderLines

/-!
# Parts are read back

A part is its header lines, an empty line and a content. It is read line by line, whatever bytes the
content is made of. Main statements:

> `Part.read_headed`; `Part.read_written` is the case of one field on each line.
>
> `Part.whole_headed`: if no line of the header is a boundary line, the part is whole where its
> content is.
-/

namespace SoapMtom.Mime

/-- A name with which a line of a header can start. -/
structure IsFieldName (name : String) : Prop where
  ne_empty : name ≠ ""
  plain : ∀ c ∈ name.toList, c ≠ ':' ∧ Text.isBlank c = false

theorem IsFieldName.exists_cons {name : String} (h : IsFieldName name) :
    ∃ c cs, name.toList = c :: cs ∧ Text.isBlank c = false := by
  have hne : name.toList ≠ [] := fun he => h.ne_empty (String.toList_eq_nil_iff.1 he)
  obtain ⟨c, cs, hname⟩ := List.exists_cons_of_ne_nil hne
  refine ⟨c, cs, hname, (h.plain c ?_).2⟩
  rw [hname]
  exact List.mem_cons_self ..

/-- A field that is written on one line, and whose value has no blanks around it. -/
structure HeaderField.Writable (f : HeaderField) : Prop where
  name_ne : f.name ≠ ""
  name_plain : ∀ c ∈ f.name.toList, c ≠ ':' ∧ Text.isBlank c = false
  value_line : '\n' ∉ f.value.toList
  value_trim : Text.trim f.value = f.value

/-- The line of a field, without the line break after it. -/
def HeaderField.line (f : HeaderField) : List Char := f.name.toList ++ ':' :: ' ' :: f.value.toList

/-- The field as it is read, under the lower-case name. -/
def HeaderField.lowered (f : HeaderField) : HeaderField := { f with name := Text.lower f.name }

namespace HeaderField

/-- A line starts with the first character of the name, which is no blank. -/
theorem Writable.exists_line {f : HeaderField} (h : f.Writable) :
    ∃ c cs, f.line = c :: cs ∧ f.name.toList.head? = some c ∧ Text.isBlank c = false := by
  have hfield : IsFieldName f.name := ⟨h.name_ne, h.name_plain⟩
  obtain ⟨c, cs, hname, hblank⟩ := hfield.exists_cons
  refine ⟨c, cs ++ ':' :: ' ' :: f.value.toList, ?_, ?_, hblank⟩
  · rw [line, hname]
    rfl
  · rw [hname]
    rfl

/-- A field is written on a line of its own. -/
theorem Writable.isHeaderLine {f : HeaderField} (h : f.Writable) : IsHeaderLine f.line := by
  refine ⟨fun hmem => ?_, ?_, fun hlast => ?_⟩
  · rcases List.mem_append.1 hmem with hmem | hmem
    · exact Text.ne_of_isBlank Text.isBlank_lineFeed (h.name_plain _ hmem).2 rfl
    · rw [List.mem_cons, List.mem_cons] at hmem
      rcases hmem with hmem | hmem | hmem
      · exact absurd hmem (by decide)
      · exact absurd hmem (by decide)
      · exact h.value_line hmem
  · obtain ⟨c, cs, hline, -, hblank⟩ := h.exists_line
    exact ⟨c, cs, hline, (Text.ne_of_isBlank Text.isBlank_carriageReturn hblank).symm⟩
  · -- the value is trimmed, and what stands before it is a space
    rw [line, List.getLast?_append, List.getLast?_cons_cons, List.getLast?_cons] at hlast
    have hvalue : (Text.trimChars f.value.toList).getLast? = some '\r' →
        Text.isBlank '\r' = false := Text.isBlank_of_getLast?_trimChars
    rw [Text.trimChars_toList h.value_trim, Text.isBlank_carriageReturn] at hvalue
    cases hend : f.value.toList.getLast? with
    | none =>
      rw [hend] at hlast
      simp at hlast
    | some c =>
      rw [hend] at hlast
      obtain rfl : c = '\r' := by simpa using hlast
      cases hvalue hend

end HeaderField

namespace Part

/-! ## Headers with carriage returns -/

/-- The header ends at the first empty line. -/
theorem breakOnFrom_lines {line : Bytes} {lines : List Bytes}
    (hline : Framing.lineFeed ∉ line)
    (hlines : ∀ l ∈ lines, Framing.lineFeed ∉ l ∧ ∃ b bs, l = b :: bs ∧ b ≠ 13)
    (acc content : Bytes) :
    Bytes.breakOnFrom headerEnd acc
        (line ++ lines.flatMap (Framing.crlf ++ ·) ++ headerEnd ++ content) =
      some (acc.reverse ++ line ++ lines.flatMap (Framing.crlf ++ ·), content) :=
  breakOnFrom_emptyLine .crlf hline hlines acc content

/-- A part with these lines in its header and this content. -/
def headed (header : List (List Char)) (content : Bytes) : Bytes :=
  header.flatMap (fun line => Utf8.encodeChars line ++ Framing.crlf) ++ Framing.crlf ++ content

/-- The lines of a header in one text, without the line break after the last of them. -/
def headerText : List (List Char) → List Char
  | [] => []
  | line :: others => line ++ others.flatMap fun line => '\r' :: '\n' :: line

theorem headerText_eq (header : List (List Char)) : headerText header = linedText .crlf header := by
  cases header <;> rfl

/-- Line breaks stand between lines as much as after them. -/
theorem headed_cons (line : List Char) (others : List (List Char)) (content : Bytes) :
    headed (line :: others) content = Utf8.encodeChars line ++
      (others.map Utf8.encodeChars).flatMap (Framing.crlf ++ ·) ++ headerEnd ++ content :=
  lined_cons .crlf line others content

/-- The lines of a header are found again; a header without lines has an empty one. -/
theorem lines_headerText {header : List (List Char)} (h : ∀ l ∈ header, IsHeaderLine l) :
    headerLines (headerText header) = if header = [] then [[]] else header := by
  rw [headerText_eq, lines_linedText .crlf h]

/-- A part is read line by line, and its content as it is. -/
theorem read_headed {header : List (List Char)} (h : ∀ l ∈ header, IsHeaderLine l)
    (content : Bytes) :
    read (headed header content) =
      (header.foldlM readLine []).map fun fields => { fields := fields.reverse, body := content } :=
  read_lined .crlf h fun hb => nomatch hb

/-! ## The fields -/

/-- A line that starts with a blank adds to the value of the field before it, if there is one. -/
theorem readLine_blank {c : Char} (hc : c = ' ' ∨ c = '\t') (cs : List Char) :
    readLine [] (c :: cs) = .ok [] ∧
      ∀ f before, readLine (f :: before) (c :: cs) =
        .ok ({ f with value := f.value ++ " " ++ String.ofList (Text.trimChars (c :: cs)) } ::
          before) := by
  have hstart : (decide (c = ' ') || decide (c = '\t')) = true := by simpa using hc
  unfold readLine
  dsimp only
  exact ⟨if_pos hstart, fun _ _ => if_pos hstart⟩

/-- A line with a trimmed name and a colon is read as a field, whatever stands after the colon. -/
theorem readLine_colon {name : List Char} (hne : name ≠ []) (htrim : Text.trimChars name = name)
    (hcolon : ':' ∉ name) (value : List Char) (before : List HeaderField) :
    readLine before (name ++ ':' :: value) =
      .ok ({ name := Text.lower (String.ofList name)
             value := String.ofList (Text.trimChars value) } :: before) := by
  obtain ⟨c, cs, rfl⟩ := List.exists_cons_of_ne_nil hne
  have hhead : (Text.trimChars (c :: cs)).head? = some c := by
    rw [htrim]
    rfl
  have hblank := Text.isBlank_of_head?_trimChars hhead
  have hcut := Text.cutAt?_append hcolon value
  have hstart : ¬(decide (c = ' ') || decide (c = '\t')) = true := by
    rw [Bool.or_eq_true, decide_eq_true_eq, decide_eq_true_eq]
    rintro (rfl | rfl)
    · exact Text.ne_of_isBlank Text.isBlank_space hblank rfl
    · exact Text.ne_of_isBlank Text.isBlank_tab hblank rfl
  rw [List.cons_append] at hcut ⊢
  unfold readLine
  dsimp only
  rw [if_neg hstart, hcut]
  dsimp only
  rw [htrim]

/-- A line with a name and a colon is read as a field, whatever its value is. -/
theorem readLine_named {name : String} (h : IsFieldName name) (value : List Char)
    (before : List HeaderField) :
    readLine before (name.toList ++ ':' :: ' ' :: value) =
      .ok ({ name := Text.lower name, value := String.ofList (Text.trimChars value) } ::
        before) := by
  have htrim : Text.trimChars name.toList = name.toList :=
    Text.trimChars_of_ends (fun d hd => (h.plain d (List.mem_of_mem_head? hd)).2) fun d hd =>
      (h.plain d (List.mem_of_getLast? hd)).2
  rw [readLine_colon (fun he => h.ne_empty (String.toList_eq_nil_iff.1 he)) htrim
    (fun hmem => (h.plain _ hmem).1 rfl), Text.trimChars_cons Text.isBlank_space,
    String.ofList_toList]

/-- A line is read as its field. -/
private theorem readLine_line {f : HeaderField} (h : f.Writable) (before : List HeaderField) :
    readLine before f.line = .ok (f.lowered :: before) := by
  rw [HeaderField.line, readLine_named ⟨h.name_ne, h.name_plain⟩,
    Text.trimChars_toList h.value_trim, String.ofList_toList]
  rfl

/-- Line by line the fields are read. -/
theorem foldlM_lines {fs : List HeaderField}
    (h : ∀ f ∈ fs, ∀ before, readLine before f.line = .ok (f.lowered :: before))
    (before : List HeaderField) :
    (fs.map HeaderField.line).foldlM readLine before =
      .ok ((fs.map HeaderField.lowered).reverse ++ before) := by
  induction fs generalizing before with
  | nil => rfl
  | cons f fs ih =>
    obtain ⟨hf, hfs⟩ := List.forall_mem_cons.1 h
    rw [List.map_cons, List.foldlM_cons, hf]
    show (fs.map HeaderField.line).foldlM readLine (f.lowered :: before) = _
    rw [ih hfs]
    simp

theorem foldlM_readLine {fs : List HeaderField} (h : ∀ f ∈ fs, f.Writable)
    (before : List HeaderField) :
    (fs.map HeaderField.line).foldlM readLine before =
      .ok ((fs.map HeaderField.lowered).reverse ++ before) :=
  foldlM_lines (fun f hf => readLine_line (h f hf)) before

/-- A part with these fields and this content. -/
def written (fields : List HeaderField) (content : Bytes) : Bytes :=
  headed (fields.map HeaderField.line) content

/-- A written part is read as its fields and its content. -/
theorem read_written {fields : List HeaderField} (h : ∀ f ∈ fields, f.Writable)
    (content : Bytes) :
    read (written fields content) =
      .ok { fields := fields.map HeaderField.lowered, body := content } := by
  rw [written, read_headed, foldlM_readLine h]
  · simp [Except.map]
  · intro l hl
    obtain ⟨f, hf, rfl⟩ := List.mem_map.1 hl
    exact (h f hf).isHeaderLine

/-! ## Boundary lines -/

/-- A line that starts with another character than a boundary line is none. -/
theorem isPrefixOf_line_eq_false {b : UInt8} (hascii : b.toNat < 128) {c : Char}
    (hc : Char.ofNat b.toNat ≠ c) (d : Bytes) (cs : List Char) (rest : Bytes) :
    (b :: d).isPrefixOf (Utf8.encodeChars (c :: cs) ++ rest) = false := by
  obtain ⟨b', bs, hbytes, hne⟩ := Utf8.exists_encodeChars_cons c cs
  have hfirst : b' ≠ b := hne b hascii hc
  rw [hbytes, List.cons_append, List.isPrefixOf_cons_cons, beq_false_of_ne (Ne.symm hfirst),
    Bool.false_and]

/-- A part starts with the first line of its header. -/
theorem headed_line (line : List Char) (header : List (List Char)) (content : Bytes) :
    headed (line :: header) content =
      (Utf8.encodeChars line ++ [13]) ++ Framing.lineFeed :: headed header content := by
  simp [headed, Framing.crlf, Framing.lineFeed]

/-- If no line of the header is a boundary line, the part is whole where its content is. -/
theorem whole_headed {b : UInt8} {d content : Bytes} (hcr : b ≠ 13) {header : List (List Char)}
    (h : ∀ l ∈ header, '\n' ∉ l ∧
      (b :: d).isPrefixOf (Utf8.encodeChars l ++ Framing.crlf) = false)
    (hcontent : Framing.Whole (b :: d) content) : Framing.Whole (b :: d) (headed header content) := by
  induction header with
  | nil =>
    show Framing.Whole (b :: d) ([13] ++ Framing.lineFeed :: content)
    refine hcontent.cons (by decide) ?_
    rw [List.cons_append, List.isPrefixOf_cons_cons, beq_false_of_ne hcr, Bool.false_and]
  | cons line header ih =>
    obtain ⟨⟨hline, hstart⟩, hrest⟩ := List.forall_mem_cons.1 h
    rw [headed_line]
    refine (ih hrest).cons ?_ ?_
    · rw [List.mem_append, not_or]
      exact ⟨lineFeed_not_mem_encodeChars hline, by decide⟩
    · rw [List.append_assoc]
      exact hstart

/-- In a part that is whole, no line of the header is a boundary line. -/
theorem isPrefixOf_of_whole_headed {d content : Bytes} {header : List (List Char)}
    (hlines : ∀ l ∈ header, '\n' ∉ l) (h : Framing.Whole d (headed header content)) :
    ∀ l ∈ header, d.isPrefixOf (Utf8.encodeChars l ++ Framing.crlf) = false := by
  induction header with
  | nil => simp
  | cons line header ih =>
    obtain ⟨hline, hrest⟩ := List.forall_mem_cons.1 hlines
    have hunbroken : Framing.lineFeed ∉ Utf8.encodeChars line ++ [13] := by
      rw [List.mem_append, not_or]
      exact ⟨lineFeed_not_mem_encodeChars hline, by decide⟩
    rw [headed_line, Framing.Whole, Framing.lines_line hunbroken, List.forall_mem_cons] at h
    obtain ⟨hfirst, hothers⟩ := h
    rw [List.append_assoc] at hfirst
    exact List.forall_mem_cons.2 ⟨hfirst, ih hrest hothers⟩

/-- No field is written on a boundary line, if no name starts with the character that such a line
starts with. -/
theorem whole_written {b : UInt8} {d content : Bytes} (hascii : b.toNat < 128) (hcr : b ≠ 13)
    (hcontent : Framing.Whole (b :: d) content) {fields : List HeaderField}
    (h : ∀ f ∈ fields, f.Writable ∧ f.name.toList.head? ≠ some (Char.ofNat b.toNat)) :
    Framing.Whole (b :: d) (written fields content) := by
  refine whole_headed hcr (fun l hl => ?_) hcontent
  obtain ⟨f, hf, rfl⟩ := List.mem_map.1 hl
  obtain ⟨hwritable, hname⟩ := h f hf
  refine ⟨hwritable.isHeaderLine.unbroken, ?_⟩
  obtain ⟨c, cs, hline, hhead, -⟩ := hwritable.exists_line
  rw [hline]
  refine isPrefixOf_line_eq_false hascii ?_ d cs _
  rintro rfl
  exact hname hhead

end Part

end SoapMtom.Mime
