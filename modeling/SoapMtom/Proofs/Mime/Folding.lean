import SoapMtom.Proofs.Mime.Part

/-!
# Fields on several lines

The value of a field may go on after a line break, on a line that starts with a blank. However many
lines it takes, it stays one field of the header, and none of its lines can be taken for the end of
the header or for a boundary line. Main statements:

> `Part.read_withFolded`: the fields after a folded one are read as they are.
>
> `Part.whole_withFolded`: a folded field holds no boundary line.
-/

namespace SoapMtom.Mime

/-- A line that carries on the field before it. -/
structure IsContinuation (line : List Char) : Prop where
  unbroken : '\n' ∉ line
  start : ∃ c cs, line = c :: cs ∧ (c = ' ' ∨ c = '\t')

/-- A first line and the lines that carry it on, with line feeds between them. -/
def folded (first : List Char) (others : List (List Char)) : List Char :=
  first ++ others.flatMap ('\n' :: ·)

/-- A value whose lines after the first, if there are any, all start with a space or a tab. -/
def IsFolded (value : List Char) : Prop :=
  ∃ first others, value = folded first others ∧ '\n' ∉ first ∧ ∀ l ∈ others, IsContinuation l

/-- One line is folded, with no line after it. -/
theorem isFolded_of_line {value : List Char} (h : '\n' ∉ value) : IsFolded value :=
  ⟨value, [], (List.append_nil value).symm, h, by simp⟩

theorem folded_cons (first next : List Char) (others : List (List Char)) :
    folded first (next :: others) = first ++ '\n' :: folded next others := by
  simp [folded]

/-- The bytes of a folded value, one line break after another. -/
theorem encodeChars_folded_cons (first next : List Char) (others : List (List Char)) :
    Utf8.encodeChars (folded first (next :: others)) =
      Utf8.encodeChars first ++ Framing.lineFeed :: Utf8.encodeChars (folded next others) := by
  have hfeed : String.utf8EncodeChar '\n' = [Framing.lineFeed] := by decide
  rw [folded_cons, Utf8.encodeChars_append, Utf8.encodeChars_cons, hfeed]
  rfl

namespace IsContinuation

variable {line : List Char}

/-- A line that carries a field on starts with a byte of its own, not with a carriage return. -/
theorem exists_bytes (h : IsContinuation line) (others : List (List Char)) :
    ∃ b bs, Utf8.encodeChars (folded line others) = b :: bs ∧ b ≠ 13 := by
  obtain ⟨c, cs, rfl, hblank⟩ := h.start
  obtain ⟨b, bs, hbytes, hne⟩ := Utf8.exists_encodeChars_cons c (folded cs others)
  refine ⟨b, bs, hbytes, hne 13 (by decide) ?_⟩
  rintro rfl
  rcases hblank with h | h
  · exact absurd h (by decide)
  · exact absurd h (by decide)

end IsContinuation

namespace Part

/-! ## The header goes on -/

/-- A line break does not end the header if the next line is no empty one. -/
private theorem breakOnFrom_lineFeed {line : Bytes} (h : Framing.lineFeed ∉ line) {rest : Bytes}
    (hrest : rest.head? ≠ some 13) (acc : Bytes) :
    Bytes.breakOnFrom headerEnd acc (line ++ Framing.lineFeed :: rest) =
      Bytes.breakOnFrom headerEnd ((line ++ [Framing.lineFeed]).reverse ++ acc) rest := by
  induction line generalizing acc with
  | nil =>
    rw [List.nil_append]
    exact Bytes.breakOnFrom_cons_of_ne (by decide)
  | cons b line ih =>
    rw [List.mem_cons, not_or] at h
    rw [List.cons_append, Bytes.breakOnFrom, if_neg, ih h.2]
    · simp
    · intro hprefix
      obtain ⟨t, ht⟩ := List.isPrefixOf_iff_prefix.1 hprefix
      have htail : 10 :: 13 :: 10 :: t = line ++ Framing.lineFeed :: rest := (List.cons.inj ht).2
      -- the line feed of the pattern is the one after the line, and a carriage return follows
      cases line with
      | nil =>
        rw [← (List.cons.inj htail).2] at hrest
        exact hrest rfl
      | cons c line => exact h.2 (by rw [← (List.cons.inj htail).1]; exact List.mem_cons_self ..)

/-- No line of a folded field ends the header. -/
private theorem breakOnFrom_folded {first : List Char} {others : List (List Char)}
    (hfirst : '\n' ∉ first) (hothers : ∀ l ∈ others, IsContinuation l) {rest : Bytes}
    (hrest : rest.head? ≠ some 13) (acc : Bytes) :
    Bytes.breakOnFrom headerEnd acc (Utf8.encodeChars (folded first others) ++ Framing.crlf ++ rest) =
      Bytes.breakOnFrom headerEnd
        ((Utf8.encodeChars (folded first others) ++ Framing.crlf).reverse ++ acc) rest := by
  induction others generalizing first acc with
  | nil =>
    have hsplit : Utf8.encodeChars (folded first []) ++ Framing.crlf ++ rest =
        (Utf8.encodeChars first ++ [13]) ++ Framing.lineFeed :: rest := by
      simp [folded, Framing.crlf, Framing.lineFeed]
    have hline : Framing.lineFeed ∉ Utf8.encodeChars first ++ [13] := by
      rw [List.mem_append, not_or]
      exact ⟨lineFeed_not_mem_encodeChars hfirst, by decide⟩
    rw [hsplit, breakOnFrom_lineFeed hline hrest]
    simp [folded, Framing.crlf, Framing.lineFeed]
  | cons next others ih =>
    obtain ⟨hnext, hothers⟩ := List.forall_mem_cons.1 hothers
    obtain ⟨b, bs, hbytes, hcr⟩ := hnext.exists_bytes others
    have hhead : (Utf8.encodeChars (folded next others) ++ Framing.crlf ++ rest).head? ≠
        some 13 := by
      rw [hbytes]
      simpa using hcr
    rw [encodeChars_folded_cons, List.append_assoc, List.append_assoc, List.cons_append,
      ← List.append_assoc (Utf8.encodeChars (folded next others)),
      breakOnFrom_lineFeed (lineFeed_not_mem_encodeChars hfirst) hhead, ih hnext.unbroken hothers]
    simp

/-! ## The field stays one field -/

/-- A line that carries a field on changes the value of the field only. -/
private theorem readLine_continuation {line : List Char} (h : IsContinuation line)
    (f : HeaderField) (before : List HeaderField) :
    ∃ value, readLine (f :: before) (Text.dropEndWhile (· = '\r') line) =
      .ok ({ f with value } :: before) := by
  obtain ⟨c, cs, rfl, hblank⟩ := h.start
  have hc : decide (c = '\r') = false := by
    rcases hblank with rfl | rfl
    · decide
    · decide
  obtain ⟨cs', hdrop⟩ := Text.exists_dropEndWhile (p := (· = '\r')) hc [] cs
  rw [List.nil_append, List.nil_append] at hdrop
  rw [hdrop]
  exact ⟨_, (readLine_blank hblank cs').2 f before⟩

/-- Where the lines of a folded field lead, if its first line is read as a field. -/
private theorem foldlM_folded {first : List Char} {others : List (List Char)}
    (hfirst : '\n' ∉ first) (hothers : ∀ l ∈ others, IsContinuation l) (rest : List Char)
    {fields before : List HeaderField} {f : HeaderField}
    (hread : readLine fields (Text.dropEndWhile (· = '\r') first) = .ok (f :: before)) :
    ∃ value, (headerLines (folded first others ++ '\r' :: '\n' :: rest)).foldlM readLine fields =
      (headerLines rest).foldlM readLine ({ f with value } :: before) := by
  induction others generalizing first fields f with
  | nil =>
    have hsplit : folded first [] ++ '\r' :: '\n' :: rest = (first ++ ['\r']) ++ '\n' :: rest := by
      simp [folded]
    have hunbroken : '\n' ∉ first ++ ['\r'] := by simpa using hfirst
    rw [hsplit, headerLines, Text.splitAt_append hunbroken, List.map_cons,
      Text.dropEndWhile_append_singleton (by simp), List.foldlM_cons, hread]
    exact ⟨f.value, rfl⟩
  | cons next others ih =>
    obtain ⟨hnext, hothers⟩ := List.forall_mem_cons.1 hothers
    obtain ⟨value, hcontinued⟩ := readLine_continuation hnext f before
    obtain ⟨value', hrest⟩ := ih hnext.unbroken hothers hcontinued
    refine ⟨value', ?_⟩
    rw [folded_cons, List.append_assoc, List.cons_append, headerLines, Text.splitAt_append hfirst,
      List.map_cons, List.foldlM_cons, hread]
    exact hrest

/-- A part whose first field may be folded, with more lines in its header. -/
def withFolded (name : String) (value : List Char) (header : List (List Char))
    (content : Bytes) : Bytes :=
  Utf8.encodeChars (name.toList ++ ':' :: ' ' :: value) ++ Framing.crlf ++ headed header content

/-- A line that starts with a name starts with no line break. -/
private theorem exists_bytes_named {name : String} (h : IsFieldName name) (value : List Char) :
    ∃ b bs, Utf8.encodeChars (name.toList ++ value) = b :: bs ∧ b ≠ 13 ∧ b ≠ Framing.lineFeed := by
  obtain ⟨c, cs, hc, hblank⟩ := h.exists_cons
  obtain ⟨b, bs, hb, hfirst⟩ := Utf8.exists_encodeChars_cons c (cs ++ value)
  refine ⟨b, bs, ?_, hfirst 13 (by decide) ?_, hfirst 10 (by decide) ?_⟩
  · rw [hc, List.cons_append, hb]
  · exact Text.ne_of_isBlank Text.isBlank_carriageReturn hblank
  · exact Text.ne_of_isBlank Text.isBlank_lineFeed hblank

/-- A written part is the first of its fields, folded or not, and those after it. -/
theorem written_cons (f : HeaderField) (fields : List HeaderField) (content : Bytes) :
    written (f :: fields) content =
      withFolded f.name f.value.toList (fields.map HeaderField.line) content := by
  rw [written, withFolded, headed, headed, List.map_cons, List.flatMap_cons, HeaderField.line]
  simp only [List.append_assoc]

/-- No line feed stands in the first line of a field, if none does in its value. -/
private theorem lineFeed_not_mem_named {name : String} (h : IsFieldName name) {value : List Char}
    (hvalue : '\n' ∉ value) : '\n' ∉ name.toList ++ ':' :: ' ' :: value := by
  intro hmem
  rcases List.mem_append.1 hmem with hmem | hmem
  · exact Text.ne_of_isBlank Text.isBlank_lineFeed (h.plain _ hmem).2 rfl
  · simp [hvalue] at hmem

/-- The first line of a field is read as one, whatever stands at its end. -/
private theorem readLine_first {name : String} (h : IsFieldName name) (value : List Char) :
    ∃ v, readLine [] (Text.dropEndWhile (· = '\r') (name.toList ++ ':' :: ' ' :: value)) =
      .ok [{ name := Text.lower name, value := v }] := by
  obtain ⟨value', hdrop⟩ := Text.exists_dropEndWhile (p := (· = '\r')) (c := ' ') (by decide)
    (name.toList ++ [':']) value
  rw [List.append_assoc, List.append_assoc, List.singleton_append, List.singleton_append] at hdrop
  rw [hdrop, readLine_named h]
  exact ⟨_, rfl⟩

/-- The text of a header whose first field may be folded. -/
private def foldedText (first : List Char) (others lines : List (List Char)) : List Char :=
  folded first others ++ '\r' :: '\n' :: headerText lines

/-- A header ends behind its last line, also after a folded field. -/
private theorem separate?_withFolded {name : String} (hname : IsFieldName name)
    {first : List Char} (hfirst : '\n' ∉ first) {others : List (List Char)}
    (hothers : ∀ l ∈ others, IsContinuation l) {header : List (List Char)} (hne : header ≠ [])
    (hheader : ∀ l ∈ header, IsHeaderLine l) (content : Bytes) :
    separate? (withFolded name (folded first others) header content) =
      some (Utf8.encodeChars (foldedText (name.toList ++ ':' :: ' ' :: first) others header),
        content) := by
  obtain ⟨line, lines, rfl⟩ := List.exists_cons_of_ne_nil hne
  obtain ⟨hline, hlines⟩ := List.forall_mem_cons.1 hheader
  have hbytes : ∀ l ∈ lines.map Utf8.encodeChars,
      Framing.lineFeed ∉ l ∧ ∃ b bs, l = b :: bs ∧ b ≠ 13 := by
    intro l hl
    obtain ⟨k, hk, rfl⟩ := List.mem_map.1 hl
    obtain ⟨b, bs, hbytes, hcr, -⟩ := (hlines k hk).exists_bytes
    exact ⟨(hlines k hk).lineFeed_not_mem, b, bs, hbytes, hcr⟩
  have hhead : (headed (line :: lines) content).head? ≠ some 13 := by
    obtain ⟨b, bs, hb, hcr, -⟩ := hline.exists_bytes
    rw [headed_cons, hb]
    simpa using hcr
  -- first the lines of the folded field are passed, then those after it
  have hbreak := breakOnFrom_folded (lineFeed_not_mem_named hname hfirst) hothers hhead []
  rw [headed_cons, breakOnFrom_lines hline.lineFeed_not_mem hbytes, ← headed_cons, List.append_nil,
    List.reverse_reverse] at hbreak
  have hend : ∀ cs, Utf8.encodeChars ('\r' :: '\n' :: cs) = Framing.crlf ++ Utf8.encodeChars cs := by
    intro cs
    show Utf8.encodeChars (['\r', '\n'] ++ cs) = _
    rw [Utf8.encodeChars_append]
    rfl
  have htext : Utf8.encodeChars
      (foldedText (name.toList ++ ':' :: ' ' :: first) others (line :: lines)) =
        Utf8.encodeChars (folded (name.toList ++ ':' :: ' ' :: first) others) ++ Framing.crlf ++
          Utf8.encodeChars line ++ (lines.map Utf8.encodeChars).flatMap (Framing.crlf ++ ·) := by
    rw [foldedText, Utf8.encodeChars_append, hend, headerText, Utf8.encodeChars_append,
      Utf8.encodeChars_flatMap, List.flatMap_map]
    simp only [hend, List.append_assoc]
  -- the name stands in front, so the part starts with no line break
  obtain ⟨b, bs, hb, hcr, hlf⟩ := exists_bytes_named hname (':' :: ' ' :: folded first others)
  have hstart : withFolded name (folded first others) (line :: lines) content =
      b :: (bs ++ Framing.crlf ++ headed (line :: lines) content) := by
    rw [withFolded, hb]
    rfl
  have hfold : name.toList ++ ':' :: ' ' :: folded first others =
      folded (name.toList ++ ':' :: ' ' :: first) others := by
    simp [folded]
  rw [← htext, ← hfold, ← withFolded, hstart] at hbreak
  rw [hstart]
  exact separate?_of_breakOn hcr hlf hbreak

/-- A part with a folded field in front is read as that field and those on the lines after it. -/
theorem read_withFolded {name : String} (hname : IsFieldName name) {value : List Char}
    (hvalue : IsFolded value) {header : List (List Char)} (hne : header ≠ [])
    (hheader : ∀ l ∈ header, IsHeaderLine l) (content : Bytes) :
    ∃ v, read (withFolded name value header content) =
      (header.foldlM readLine [{ name := Text.lower name, value := v }]).map fun fields =>
        { fields := fields.reverse, body := content } := by
  obtain ⟨first, others, rfl, hfirst, hothers⟩ := hvalue
  obtain ⟨v, hv⟩ := readLine_first hname first
  obtain ⟨v', hfields⟩ := foldlM_folded (lineFeed_not_mem_named hname hfirst) hothers
    (headerText header) hv
  have hlines : headerLines (headerText header) = header :=
    (lines_headerText hheader).trans (if_neg hne)
  rw [hlines] at hfields
  refine ⟨v', ?_⟩
  rw [read_of_separate? (separate?_withFolded hname hfirst hothers hne hheader content),
    readFields_ofList, foldedText, hfields]
  cases header.foldlM readLine [{ name := Text.lower name, value := v' }] <;> rfl

/-! ## Boundary lines -/

/-- No line of a folded field is a boundary line. -/
private theorem whole_folded {b : UInt8} (hascii : b.toNat < 128)
    (hblank : Text.isBlank (Char.ofNat b.toNat) = false) {d rest : Bytes}
    (hrest : Framing.Whole (b :: d) rest) {others : List (List Char)}
    (hothers : ∀ l ∈ others, IsContinuation l) {c : Char} {cs : List Char} (hfirst : '\n' ∉ c :: cs)
    (hc : Char.ofNat b.toNat ≠ c) :
    Framing.Whole (b :: d) (Utf8.encodeChars (folded (c :: cs) others) ++ Framing.crlf ++ rest) := by
  induction others generalizing c cs with
  | nil =>
    have hsplit : Utf8.encodeChars (folded (c :: cs) []) ++ Framing.crlf ++ rest =
        (Utf8.encodeChars (c :: cs) ++ [13]) ++ Framing.lineFeed :: rest := by
      simp [folded, Framing.crlf, Framing.lineFeed]
    rw [hsplit]
    refine hrest.cons ?_ ?_
    · rw [List.mem_append, not_or]
      exact ⟨lineFeed_not_mem_encodeChars hfirst, by decide⟩
    · rw [List.append_assoc]
      exact isPrefixOf_line_eq_false hascii hc d cs _
  | cons next others ih =>
    obtain ⟨hnext, hlater⟩ := List.forall_mem_cons.1 hothers
    obtain ⟨c', cs', rfl, hstart⟩ := hnext.start
    -- the next line starts with a blank, and a boundary line does not
    have hc' : Char.ofNat b.toNat ≠ c' := by
      rcases hstart with rfl | rfl
      · exact (Text.ne_of_isBlank Text.isBlank_space hblank).symm
      · exact (Text.ne_of_isBlank Text.isBlank_tab hblank).symm
    rw [encodeChars_folded_cons, List.append_assoc, List.append_assoc, List.cons_append,
      ← List.append_assoc (Utf8.encodeChars (folded (c' :: cs') others))]
    exact (ih hlater hnext.unbroken hc').cons (lineFeed_not_mem_encodeChars hfirst)
      (isPrefixOf_line_eq_false hascii hc d cs _)

/-- A part with a folded field in front is whole where the lines after the field and its content
are. -/
theorem whole_withFolded {b : UInt8} (hascii : b.toNat < 128)
    (hblank : Text.isBlank (Char.ofNat b.toNat) = false) {d : Bytes} {name : String}
    (hname : IsFieldName name) (hstart : name.toList.head? ≠ some (Char.ofNat b.toNat))
    {value : List Char} (hvalue : IsFolded value) {header : List (List Char)} {content : Bytes}
    (h : Framing.Whole (b :: d) (headed header content)) :
    Framing.Whole (b :: d) (withFolded name value header content) := by
  obtain ⟨first, others, rfl, hfirst, hothers⟩ := hvalue
  obtain ⟨c, cs, hc, -⟩ := hname.exists_cons
  have hunbroken := lineFeed_not_mem_named hname hfirst
  have hfold : name.toList ++ ':' :: ' ' :: folded first others =
      folded (c :: (cs ++ ':' :: ' ' :: first)) others := by
    simp [folded, hc]
  rw [hc] at hstart hunbroken
  rw [withFolded, hfold]
  refine whole_folded hascii hblank h hothers hunbroken ?_
  rintro rfl
  exact hstart rfl

end Part

end SoapMtom.Mime
