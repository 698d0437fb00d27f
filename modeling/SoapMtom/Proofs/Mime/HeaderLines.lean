import SoapMtom.Mime.Part
import SoapMtom.Proofs.Mime.Framing
import SoapMtom.Proofs.Occurrence
import SoapMtom.Proofs.Outcome
import SoapMtom.Proofs.Text.Cut
import SoapMtom.Proofs.Text.Encoding

/-!
# Lines of a header

A header is made of lines that all end with the same line break, and one more line break after them.
It ends there, whatever lines the content has: an empty line is looked for from the front. A carriage
return and a line feed are looked for first, though, so where the lines end with a line feed alone,
the content must hold no empty line of the other kind. Main statements:

> `Part.read_of_separate?`: a part that comes apart is read as the fields of its header.
>
> `Part.read_lined`: the lines of a header are read one by one.
-/

namespace SoapMtom.Mime

namespace Framing.LineBreak

/-- The characters of a line break. -/
def chars : LineBreak → List Char
  | .crlf => ['\r', '\n']
  | .lineFeed => ['\n']

/-- The characters of a line break before its line feed. -/
def frontChars : LineBreak → List Char
  | .crlf => ['\r']
  | .lineFeed => []

theorem chars_eq (b : LineBreak) : b.chars = b.frontChars ++ ['\n'] := by
  cases b <;> rfl

theorem encodeChars_chars (b : LineBreak) : Utf8.encodeChars b.chars = b.bytes := by
  cases b <;> decide

end Framing.LineBreak

/-- A line without a line feed has none among its bytes. -/
theorem lineFeed_not_mem_encodeChars {line : List Char} (h : '\n' ∉ line) :
    Framing.lineFeed ∉ Utf8.encodeChars line :=
  fun hmem => h (Utf8.mem_of_mem_encodeChars hmem (by decide))

/-- A line that a header may hold: it is not empty, and no line break starts or ends in it. -/
structure IsHeaderLine (line : List Char) : Prop where
  unbroken : '\n' ∉ line
  start : ∃ c cs, line = c :: cs ∧ c ≠ '\r'
  last : line.getLast? ≠ some '\r'

theorem IsHeaderLine.lineFeed_not_mem {line : List Char} (h : IsHeaderLine line) :
    Framing.lineFeed ∉ Utf8.encodeChars line :=
  lineFeed_not_mem_encodeChars h.unbroken

/-- The bytes of a line do not start with a line break. -/
theorem IsHeaderLine.exists_bytes {line : List Char} (h : IsHeaderLine line) :
    ∃ b bs, Utf8.encodeChars line = b :: bs ∧ b ≠ 13 ∧ b ≠ Framing.lineFeed := by
  obtain ⟨c, cs, rfl, hcr⟩ := h.start
  obtain ⟨b, bs, hbytes, hne⟩ := Utf8.exists_encodeChars_cons c cs
  refine ⟨b, bs, hbytes, hne 13 (by decide) (Ne.symm hcr), hne 10 (by decide) ?_⟩
  rintro rfl
  exact h.unbroken (List.mem_cons_self ..)

namespace Part

/-! ## Where the header ends -/

/-- The empty line after a header, and the line break before it. -/
def headerEnd : Bytes := Framing.crlf ++ Framing.crlf

/-- An empty line with this line break, and the same line break before it. -/
def emptyLine (b : Framing.LineBreak) : Bytes := b.bytes ++ b.bytes

/-- Inside a line the header does not end. -/
private theorem breakOnFrom_line {b : Framing.LineBreak} {line : Bytes}
    (h : Framing.lineFeed ∉ line) {rest : Bytes}
    (hrest : b = .crlf → rest.head? ≠ some Framing.lineFeed) (acc : Bytes) :
    Bytes.breakOnFrom (emptyLine b) acc (line ++ rest) =
      Bytes.breakOnFrom (emptyLine b) (line.reverse ++ acc) rest := by
  induction line generalizing acc with
  | nil => rfl
  | cons x line ih =>
    rw [List.mem_cons, not_or] at h
    rw [List.cons_append, Bytes.breakOnFrom, if_neg, ih h.2]
    · simp
    · intro hprefix
      obtain ⟨t, ht⟩ := List.isPrefixOf_iff_prefix.1 hprefix
      cases b with
      | crlf =>
        -- the second byte of the pattern is a line feed, and none stands behind a byte of the line
        have hnext : (line ++ rest).head? ≠ some Framing.lineFeed := by
          cases line with
          | nil => exact hrest rfl
          | cons y line =>
            rw [List.mem_cons, not_or] at h
            exact fun hy => h.2.1 (Option.some.inj hy).symm
        rw [← (List.cons.inj ht).2] at hnext
        exact hnext rfl
      | lineFeed => exact h.1 (List.cons.inj ht).1

/-- A line break with a line after it does not end the header. -/
private theorem breakOnFrom_lineBreak (b : Framing.LineBreak) {x : UInt8} (hcr : x ≠ 13)
    (hlf : x ≠ Framing.lineFeed) (acc rest : Bytes) :
    Bytes.breakOnFrom (emptyLine b) acc (b.bytes ++ x :: rest) =
      Bytes.breakOnFrom (emptyLine b) (b.bytes.reverse ++ acc) (x :: rest) := by
  cases b with
  | crlf =>
    show Bytes.breakOnFrom (13 :: [10, 13, 10]) acc (13 :: 10 :: x :: rest) =
      Bytes.breakOnFrom (13 :: [10, 13, 10]) (10 :: 13 :: acc) (x :: rest)
    rw [Bytes.breakOnFrom, if_neg, Bytes.breakOnFrom_cons_of_ne (by decide)]
    intro hprefix
    obtain ⟨t, ht⟩ := List.isPrefixOf_iff_prefix.1 hprefix
    exact hcr (List.cons.inj (List.cons.inj (List.cons.inj ht).2).2).1.symm
  | lineFeed =>
    show Bytes.breakOnFrom (10 :: [10]) acc (10 :: x :: rest) =
      Bytes.breakOnFrom (10 :: [10]) (10 :: acc) (x :: rest)
    rw [Bytes.breakOnFrom, if_neg]
    intro hprefix
    obtain ⟨t, ht⟩ := List.isPrefixOf_iff_prefix.1 hprefix
    exact hlf (List.cons.inj (List.cons.inj ht).2).1.symm

/-- The header ends at the first empty line. -/
theorem breakOnFrom_emptyLine (b : Framing.LineBreak) {line : Bytes} {lines : List Bytes}
    (hline : Framing.lineFeed ∉ line)
    (hlines : ∀ l ∈ lines, Framing.lineFeed ∉ l ∧ ∃ x xs, l = x :: xs ∧ x ≠ 13)
    (acc content : Bytes) :
    Bytes.breakOnFrom (emptyLine b) acc
        (line ++ lines.flatMap (b.bytes ++ ·) ++ emptyLine b ++ content) =
      some (acc.reverse ++ line ++ lines.flatMap (b.bytes ++ ·), content) := by
  induction lines generalizing line acc with
  | nil =>
    rw [List.flatMap_nil, List.append_nil, List.append_assoc, breakOnFrom_line hline]
    · cases b with
      | crlf =>
        show Bytes.breakOnFrom (13 :: [10, 13, 10]) _ (13 :: [10, 13, 10] ++ content) = _
        rw [Bytes.breakOnFrom_append]
        simp
      | lineFeed =>
        show Bytes.breakOnFrom (10 :: [10]) _ (10 :: [10] ++ content) = _
        rw [Bytes.breakOnFrom_append]
        simp
    · rintro rfl
      simp [emptyLine, Framing.LineBreak.bytes, Framing.lineFeed]
  | cons next lines ih =>
    obtain ⟨⟨hfirst, x, xs, rfl, hcr⟩, hothers⟩ := List.forall_mem_cons.1 hlines
    have hlf : x ≠ Framing.lineFeed := fun he => hfirst (by rw [he]; exact List.mem_cons_self ..)
    have hsplit : line ++ ((x :: xs) :: lines).flatMap (b.bytes ++ ·) ++ emptyLine b ++ content =
        line ++ (b.bytes ++ x ::
          (xs ++ lines.flatMap (b.bytes ++ ·) ++ emptyLine b ++ content)) := by
      simp
    have hnext := ih hfirst hothers (b.bytes.reverse ++ (line.reverse ++ acc))
    rw [hsplit, breakOnFrom_line hline, breakOnFrom_lineBreak b hcr hlf]
    · rw [List.cons_append, List.cons_append, List.cons_append] at hnext
      rw [hnext]
      simp
    · rintro rfl
      simp [Framing.LineBreak.bytes, Framing.lineFeed]

/-- A part that starts with no line break comes apart at an empty line; one with carriage returns is
looked for first. -/
theorem separate?_cons {x : UInt8} (hcr : x ≠ 13) (hlf : x ≠ Framing.lineFeed) (rest : Bytes) :
    separate? (x :: rest) =
      (Bytes.breakOn headerEnd (x :: rest)).or
        (Bytes.breakOn (emptyLine .lineFeed) (x :: rest)) := by
  have hcrlf : Bytes.dropPrefix? Framing.crlf (x :: rest) = none := Bytes.dropPrefix?_cons_of_ne hcr
  have hbare : Bytes.dropPrefix? [Framing.lineFeed] (x :: rest) = none :=
    Bytes.dropPrefix?_cons_of_ne hlf
  rw [separate?, hcrlf, hbare]
  rfl

/-- A part that starts with no line break comes apart where an empty line follows a line break. -/
theorem separate?_of_breakOn {b : UInt8} (hcr : b ≠ 13) (hlf : b ≠ Framing.lineFeed)
    {rest head content : Bytes}
    (h : Bytes.breakOnFrom headerEnd [] (b :: rest) = some (head, content)) :
    separate? (b :: rest) = some (head, content) := by
  rw [separate?_cons hcr hlf, Bytes.breakOn, h]
  rfl

/-! ## Header lines in a part -/

/-- A part whose header lines, and the empty line after them, all end with this line break. -/
def lined (b : Framing.LineBreak) (header : List (List Char)) (content : Bytes) : Bytes :=
  header.flatMap (fun line => Utf8.encodeChars line ++ b.bytes) ++ b.bytes ++ content

/-- The lines of a header in one text, without the line break after the last of them. -/
def linedText (b : Framing.LineBreak) : List (List Char) → List Char
  | [] => []
  | line :: others => line ++ others.flatMap (b.chars ++ ·)

/-- Line breaks stand between lines as much as after them. -/
theorem lined_cons (b : Framing.LineBreak) (line : List Char) (others : List (List Char))
    (content : Bytes) :
    lined b (line :: others) content = Utf8.encodeChars line ++
      (others.map Utf8.encodeChars).flatMap (b.bytes ++ ·) ++ emptyLine b ++ content := by
  have hshift : ∀ (first : Bytes) (lines : List (List Char)),
      (first ++ b.bytes) ++ lines.flatMap (fun line => Utf8.encodeChars line ++ b.bytes) =
        first ++ (lines.map Utf8.encodeChars).flatMap (b.bytes ++ ·) ++ b.bytes := by
    intro first lines
    induction lines generalizing first with
    | nil => simp
    | cons line lines ih =>
      rw [List.flatMap_cons, ← List.append_assoc, ← List.append_assoc,
        ih (first ++ b.bytes ++ Utf8.encodeChars line)]
      simp
  rw [lined, List.flatMap_cons, hshift, emptyLine]
  simp

theorem encodeChars_linedText_cons (b : Framing.LineBreak) (line : List Char)
    (others : List (List Char)) :
    Utf8.encodeChars (linedText b (line :: others)) =
      Utf8.encodeChars line ++ (others.map Utf8.encodeChars).flatMap (b.bytes ++ ·) := by
  rw [linedText, Utf8.encodeChars_append, Utf8.encodeChars_flatMap, List.flatMap_map]
  simp only [Utf8.encodeChars_append, b.encodeChars_chars]

/-- A part comes apart at the first empty line. -/
theorem separate?_lined (b : Framing.LineBreak) {header : List (List Char)}
    (h : ∀ l ∈ header, IsHeaderLine l) {content : Bytes}
    (hend : b = .lineFeed → Bytes.breakOn headerEnd (lined b header content) = none) :
    separate? (lined b header content) =
      some (Utf8.encodeChars (linedText b header), content) := by
  cases header with
  | nil =>
    cases b with
    | crlf =>
      have hprefix : Bytes.dropPrefix? Framing.crlf (lined .crlf [] content) = some content := by
        rw [Bytes.dropPrefix?, if_pos]
        · rfl
        · exact List.isPrefixOf_iff_prefix.2 ⟨content, rfl⟩
      rw [separate?, hprefix]
      rfl
    | lineFeed =>
      have hcrlf : Bytes.dropPrefix? Framing.crlf (lined .lineFeed [] content) = none :=
        Bytes.dropPrefix?_cons_of_ne (by decide)
      have hprefix : Bytes.dropPrefix? [Framing.lineFeed] (lined .lineFeed [] content) =
          some content := by
        rw [Bytes.dropPrefix?, if_pos]
        · rfl
        · exact List.isPrefixOf_iff_prefix.2 ⟨content, rfl⟩
      rw [separate?, hcrlf, hprefix]
      rfl
  | cons line others =>
    obtain ⟨hline, hothers⟩ := List.forall_mem_cons.1 h
    have hlines : ∀ l ∈ others.map Utf8.encodeChars,
        Framing.lineFeed ∉ l ∧ ∃ x xs, l = x :: xs ∧ x ≠ 13 := by
      intro l hl
      obtain ⟨k, hk, rfl⟩ := List.mem_map.1 hl
      obtain ⟨x, xs, hbytes, hcr, -⟩ := (hothers k hk).exists_bytes
      exact ⟨(hothers k hk).lineFeed_not_mem, x, xs, hbytes, hcr⟩
    have hbreak : Bytes.breakOn (emptyLine b) (lined b (line :: others) content) =
        some (Utf8.encodeChars (linedText b (line :: others)), content) := by
      rw [lined_cons, encodeChars_linedText_cons]
      exact breakOnFrom_emptyLine b hline.lineFeed_not_mem hlines [] content
    -- the header is not empty, so the part starts with no line break
    obtain ⟨x, xs, hbytes, hcr, hlf⟩ := hline.exists_bytes
    have hfirst : ∃ rest, lined b (line :: others) content = x :: rest := by
      rw [lined_cons, hbytes]
      exact ⟨_, rfl⟩
    obtain ⟨rest, hrest⟩ := hfirst
    rw [hrest] at hbreak hend ⊢
    rw [separate?_cons hcr hlf]
    cases b with
    | crlf =>
      have hcrlf : Bytes.breakOn headerEnd (x :: rest) = some _ := hbreak
      rw [hcrlf]
      rfl
    | lineFeed =>
      rw [hend rfl, hbreak]
      rfl

/-! ## Lines of a text -/

/-- The lines of a header as they are read, without the carriage returns at their ends. -/
def headerLines (head : List Char) : List (List Char) :=
  (Text.splitAt '\n' head).map (Text.dropEndWhile (· = '\r'))

/-- The lines of a header are found again; a header without lines has an empty one. -/
theorem lines_linedText (b : Framing.LineBreak) {header : List (List Char)}
    (h : ∀ l ∈ header, IsHeaderLine l) :
    headerLines (linedText b header) = if header = [] then [[]] else header := by
  unfold headerLines
  cases header with
  | nil => rfl
  | cons line others =>
    rw [if_neg (by simp)]
    have hkept : ∀ {l : List Char}, IsHeaderLine l → Text.dropEndWhile (· = '\r') l = l := by
      intro l hl
      refine Text.dropEndWhile_of_last fun c hc => ?_
      rw [decide_eq_false_iff_not]
      rintro rfl
      exact hl.last hc
    induction others generalizing line with
    | nil =>
      have hline := h line (List.mem_cons_self ..)
      rw [linedText, List.flatMap_nil, List.append_nil, Text.splitAt_of_not_mem hline.unbroken,
        List.map_singleton, hkept hline]
    | cons next others ih =>
      obtain ⟨hline, hrest⟩ := List.forall_mem_cons.1 h
      have hsplit : linedText b (line :: next :: others) =
          (line ++ b.frontChars) ++ '\n' :: linedText b (next :: others) := by
        simp [linedText, b.chars_eq]
      have hunbroken : '\n' ∉ line ++ b.frontChars := by
        cases b <;> simpa [Framing.LineBreak.frontChars] using hline.unbroken
      have hdrop : Text.dropEndWhile (· = '\r') (line ++ b.frontChars) = line := by
        cases b with
        | crlf =>
          show Text.dropEndWhile (· = '\r') (line ++ ['\r']) = line
          rw [Text.dropEndWhile_append_singleton (by simp), hkept hline]
        | lineFeed =>
          show Text.dropEndWhile (· = '\r') (line ++ []) = line
          rw [List.append_nil, hkept hline]
      rw [hsplit, Text.splitAt_append hunbroken, List.map_cons, ih next hrest, hdrop]

/-- The fields of a header, line by line. -/
theorem readFields_ofList (text : List Char) :
    readFields (String.ofList text) = ((headerLines text).foldlM readLine []).map List.reverse := by
  rw [readFields, String.toList_ofList]
  rfl

/-- A part that comes apart is read as the fields of its header and its content. -/
theorem read_of_separate? {raw body : Bytes} {head : List Char}
    (h : separate? raw = some (Utf8.encodeChars head, body)) :
    read raw = (readFields (String.ofList head)).map fun fields => { fields, body } := by
  rw [read, h]
  dsimp only
  rw [← Utf8.encode_ofList, Utf8.decode_encode]
  show (readFields (String.ofList head) >>= fun fields => pure ({ fields, body } : Part)) = _
  cases readFields (String.ofList head) <;> rfl

/-- A part is read line by line, and its content as it is. -/
theorem read_lined (b : Framing.LineBreak) {header : List (List Char)}
    (h : ∀ l ∈ header, IsHeaderLine l) {content : Bytes}
    (hend : b = .lineFeed → Bytes.breakOn headerEnd (lined b header content) = none) :
    read (lined b header content) =
      (header.foldlM readLine []).map fun fields => { fields := fields.reverse, body := content } := by
  rw [read_of_separate? (separate?_lined b h hend), readFields_ofList, lines_linedText b h]
  cases header with
  | nil => rfl
  | cons line others =>
    rw [if_neg (List.cons_ne_nil line others)]
    cases (line :: others).foldlM readLine [] <;> rfl

end Part

end SoapMtom.Mime
