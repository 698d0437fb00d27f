import SoapMtom.Mime.Framing
import SoapMtom.Proofs.Text.Encoding

/-!
# Parts are found again

A message is framed from pieces: a boundary line, a part, and a line break after it. Whatever stands
before the first piece and after the closing line, it is split into the same parts again, as long as
no line of a part could be taken for a boundary line. Main statements:

> `lines_append`: lines are cut after each line feed, whatever follows.
>
> `split_framed`; `split_join` is the case of the messages that are written.
>
> `split_framed_and_unclosed`: without its closing line, the same message is refused.
-/

namespace SoapMtom.Mime.Framing

/-! ## Lines -/

/-- Bytes up to a line feed are one line. -/
theorem linesFrom_line {bs : Bytes} (h : lineFeed ∉ bs) (line rest : Bytes) :
    linesFrom line (bs ++ lineFeed :: rest) =
      (line.reverse ++ bs ++ [lineFeed]) :: linesFrom [] rest := by
  induction bs generalizing line with
  | nil =>
    rw [List.nil_append, linesFrom, if_pos rfl]
    simp
  | cons b bs ih =>
    rw [List.mem_cons, not_or] at h
    rw [List.cons_append, linesFrom, if_neg (Ne.symm h.1), ih h.2]
    simp

theorem lines_line {bs : Bytes} (h : lineFeed ∉ bs) (rest : Bytes) :
    lines (bs ++ lineFeed :: rest) = (bs ++ [lineFeed]) :: lines rest := by
  rw [lines, linesFrom_line h]
  rfl

/-- What ends with a line feed has its lines for itself. -/
theorem lines_append (bs rest : Bytes) :
    lines (bs ++ lineFeed :: rest) = lines (bs ++ [lineFeed]) ++ lines rest := by
  -- the line in the making differs from step to step
  have hfrom : ∀ line, linesFrom line (bs ++ lineFeed :: rest) =
      linesFrom line (bs ++ [lineFeed]) ++ linesFrom [] rest := by
    induction bs with
    | nil =>
      intro line
      rw [List.nil_append, List.nil_append, linesFrom, linesFrom, if_pos rfl, if_pos rfl]
      rfl
    | cons b bs ih =>
      intro line
      rw [List.cons_append, List.cons_append, linesFrom, linesFrom, ih, ih]
      split <;> rfl
  exact hfrom []

/-- The lines are all that there is. -/
theorem flatten_lines (bs : Bytes) : (lines bs).flatten = bs := by
  have hfrom : ∀ line, (linesFrom line bs).flatten = line.reverse ++ bs := by
    induction bs with
    | nil =>
      intro line
      rw [linesFrom]
      split
      · next h =>
        rw [List.isEmpty_iff.1 h]
        rfl
      · simp
    | cons b bs ih =>
      intro line
      rw [linesFrom]
      split
      · rw [List.flatten_cons, ih]
        simp
      · rw [ih]
        simp
  exact hfrom []

/-- The bytes up to the first line feed stand at the front of the first line. -/
theorem exists_lines_append {bs : Bytes} (h : lineFeed ∉ bs) (hne : bs ≠ []) (rest : Bytes) :
    ∃ tail others, lines (bs ++ rest) = (bs ++ tail) :: others := by
  have hfrom : ∀ (rest line : Bytes), line ≠ [] →
      ∃ tail others, linesFrom line rest = (line.reverse ++ tail) :: others := by
    intro rest
    induction rest with
    | nil =>
      intro line hline
      refine ⟨[], [], ?_⟩
      rw [linesFrom, List.isEmpty_eq_false_iff.2 hline]
      simp
    | cons b rest ih =>
      intro line hline
      rw [linesFrom]
      split
      · next hb =>
        refine ⟨[b], linesFrom [] rest, ?_⟩
        rw [List.reverse_cons]
      · obtain ⟨tail, others, hlines⟩ := ih (b :: line) (List.cons_ne_nil _ _)
        refine ⟨b :: tail, others, ?_⟩
        rw [hlines]
        simp
  have hpassed : ∀ line, linesFrom line (bs ++ rest) = linesFrom (bs.reverse ++ line) rest := by
    clear hne
    induction bs with
    | nil => exact fun _ => rfl
    | cons b bs ih =>
      rw [List.mem_cons, not_or] at h
      intro line
      rw [List.cons_append, linesFrom, if_neg (Ne.symm h.1), ih h.2]
      simp
  obtain ⟨tail, others, hlines⟩ := hfrom rest bs.reverse (by simpa using hne)
  refine ⟨tail, others, ?_⟩
  rw [lines, hpassed, List.append_nil, hlines, List.reverse_reverse]

/-! ## Pieces of a message -/

/-- A line break: a line feed, with a carriage return before it or without. -/
inductive LineBreak where
  | crlf
  | lineFeed
deriving DecidableEq, Repr

/-- The bytes of a line break. -/
def LineBreak.bytes : LineBreak → Bytes
  | .crlf => [13, 10]
  | .lineFeed => [10]

/-- The bytes of a line break before its line feed. -/
def LineBreak.front : LineBreak → Bytes
  | .crlf => [13]
  | .lineFeed => []

theorem LineBreak.bytes_eq (b : LineBreak) : b.bytes = b.front ++ [Framing.lineFeed] := by
  cases b <;> rfl

theorem LineBreak.lineFeed_not_mem_front (b : LineBreak) : Framing.lineFeed ∉ b.front := by
  cases b <;> decide

/-- A part with the boundary line before it and the line break after it. -/
structure Piece where
  /-- What stands on the boundary line after the boundary. -/
  padding : Bytes := []
  opening : LineBreak := .crlf
  part : Bytes
  closing : LineBreak := .crlf
deriving DecidableEq, Repr

/-- The bytes of a piece. -/
def Piece.bytes (delimiter : Bytes) (p : Piece) : Bytes :=
  delimiter ++ p.padding ++ p.opening.bytes ++ p.part ++ p.closing.bytes

/-- The lines of a piece: the boundary line and those of the part. -/
def Piece.lines (delimiter : Bytes) (p : Piece) : List Bytes :=
  (delimiter ++ p.padding ++ p.opening.bytes) :: Framing.lines (p.part ++ p.closing.bytes)

/-- A message of these pieces, with what stands before and after them. -/
def framed (boundary : String) (preamble : Bytes) (pieces : List Piece) (epilogue : Bytes) :
    Bytes :=
  preamble ++ (pieces.flatMap (Piece.bytes (delimiter boundary)) ++
    (delimiter boundary ++ [45, 45] ++ epilogue))

/-- No line starts like a boundary line. -/
def Whole (delimiter bs : Bytes) : Prop := ∀ line ∈ lines bs, delimiter.isPrefixOf line = false

instance (delimiter bs : Bytes) : Decidable (Whole delimiter bs) :=
  inferInstanceAs (Decidable (∀ line ∈ lines bs, delimiter.isPrefixOf line = false))

/-- A piece that is found again. -/
structure Piece.Fits (delimiter : Bytes) (p : Piece) : Prop where
  padding_line : lineFeed ∉ p.padding
  /-- The line is not the closing one. -/
  padding_open : ([45, 45] : Bytes).isPrefixOf p.padding = false
  whole : Whole delimiter p.part
  /-- A carriage return at the end of the part does not go with a bare line feed after it. -/
  closing : p.closing = .lineFeed → p.part.getLast? ≠ some 13

instance (delimiter : Bytes) (p : Piece) : Decidable (p.Fits delimiter) :=
  decidable_of_iff (_ ∧ _ ∧ _ ∧ _)
    ⟨fun ⟨h₁, h₂, h₃, h₄⟩ => ⟨h₁, h₂, h₃, h₄⟩, fun ⟨h₁, h₂, h₃, h₄⟩ => ⟨h₁, h₂, h₃, h₄⟩⟩

/-- What may stand before the first piece: whole lines, none of them a boundary line. -/
structure Preamble (delimiter preamble : Bytes) : Prop where
  ended : preamble = [] ∨ preamble.getLast? = some lineFeed
  whole : Whole delimiter preamble

instance (delimiter preamble : Bytes) : Decidable (Preamble delimiter preamble) :=
  decidable_of_iff (_ ∧ _) ⟨fun ⟨h₁, h₂⟩ => ⟨h₁, h₂⟩, fun ⟨h₁, h₂⟩ => ⟨h₁, h₂⟩⟩

theorem withoutLineBreak_append {bs : Bytes} {b : LineBreak}
    (h : b = .lineFeed → bs.getLast? ≠ some 13) : withoutLineBreak (bs ++ b.bytes) = bs := by
  cases b with
  | crlf =>
    have hreverse : (bs ++ LineBreak.crlf.bytes).reverse = 10 :: 13 :: bs.reverse := by
      simp [LineBreak.bytes]
    rw [withoutLineBreak, hreverse]
    exact List.reverse_reverse bs
  | lineFeed =>
    have hreverse : (bs ++ LineBreak.lineFeed.bytes).reverse = 10 :: bs.reverse := by
      simp [LineBreak.bytes]
    have hlast := h rfl
    rw [← List.head?_reverse] at hlast
    rw [withoutLineBreak, hreverse]
    split
    · next rest heq =>
      rw [(List.cons.inj heq).2] at hlast
      exact absurd rfl hlast
    · next heq =>
      rw [← (List.cons.inj heq).2, List.reverse_reverse]
    · next hno => exact absurd rfl (hno _)

section Pieces

variable {d : Bytes}

/-- A delimiter without line breaks does not reach into one. -/
private theorem prefix_of_prefix_lineBreak (hcr : 13 ∉ d) (hlf : lineFeed ∉ d) {bs : Bytes}
    (b : LineBreak) (h : d <+: bs ++ b.bytes) : d <+: bs := by
  have hconcat : ∀ {c : UInt8} {cs : Bytes}, c ∉ d → d <+: cs ++ [c] → d <+: cs := by
    intro c cs hc hprefix
    rcases List.prefix_concat_iff.1 hprefix with rfl | hprefix
    · exact absurd (List.mem_append_right cs (List.mem_singleton_self c)) hc
    · exact hprefix
  rw [b.bytes_eq, ← List.append_assoc] at h
  have hfront := hconcat hlf h
  cases b with
  | crlf => exact hconcat hcr hfront
  | lineFeed =>
    rw [LineBreak.front, List.append_nil] at hfront
    exact hfront

/-- With a line break at its end, no line of a part starts like a boundary line either. -/
theorem Whole.append_lineBreak {part : Bytes} (h : Whole d part) (hne : d ≠ []) (hcr : 13 ∉ d)
    (hlf : lineFeed ∉ d) (b : LineBreak) : Whole d (part ++ b.bytes) := by
  have hlast : ∀ line, linesFrom line b.bytes = [line.reverse ++ b.bytes] := by
    intro line
    cases b <;> simp [LineBreak.bytes, linesFrom, lineFeed]
  have hfrom : ∀ line, (∀ l ∈ linesFrom line part, d.isPrefixOf l = false) →
      ∀ l ∈ linesFrom line (part ++ b.bytes), d.isPrefixOf l = false := by
    clear h
    induction part with
    | nil =>
      intro line hline l hl
      rw [List.nil_append, hlast, List.mem_singleton] at hl
      rw [hl, Bool.eq_false_iff, ne_eq, List.isPrefixOf_iff_prefix]
      intro hprefix
      have hprefix := prefix_of_prefix_lineBreak hcr hlf b hprefix
      rw [linesFrom] at hline
      split at hline
      · next hempty =>
        rw [List.isEmpty_iff.1 hempty] at hprefix
        exact hne (List.prefix_nil.1 hprefix)
      · have hno := hline _ (List.mem_singleton_self _)
        rw [List.isPrefixOf_iff_prefix.2 hprefix] at hno
        cases hno
    | cons c part ih =>
      intro line hline
      rw [List.cons_append, linesFrom]
      rw [linesFrom] at hline
      split
      · next hc =>
        rw [if_pos hc, List.forall_mem_cons] at hline
        exact List.forall_mem_cons.2 ⟨hline.1, ih [] hline.2⟩
      · next hc =>
        rw [if_neg hc] at hline
        exact ih (c :: line) hline
  exact hfrom [] h

/-- The lines of a piece, whatever follows. -/
private theorem lines_piece {p : Piece} (hd : lineFeed ∉ d) (hp : p.Fits d) (rest : Bytes) :
    lines (p.bytes d ++ rest) = p.lines d ++ lines rest := by
  have hopen : lineFeed ∉ d ++ p.padding ++ p.opening.front := by
    simp only [List.mem_append, not_or]
    exact ⟨⟨hd, hp.padding_line⟩, p.opening.lineFeed_not_mem_front⟩
  have hsplit : p.bytes d ++ rest = (d ++ p.padding ++ p.opening.front) ++
      lineFeed :: ((p.part ++ p.closing.front) ++ lineFeed :: rest) := by
    simp [Piece.bytes, LineBreak.bytes_eq]
  rw [hsplit, lines_line hopen, lines_append, Piece.lines]
  simp [LineBreak.bytes_eq]

/-- The lines of pieces, whatever follows. -/
private theorem lines_pieces {pieces : List Piece} (hd : lineFeed ∉ d)
    (hp : ∀ p ∈ pieces, p.Fits d) (rest : Bytes) :
    lines (pieces.flatMap (Piece.bytes d) ++ rest) =
      pieces.flatMap (Piece.lines d) ++ lines rest := by
  induction pieces with
  | nil => rfl
  | cons p pieces ih =>
    rw [List.flatMap_cons, List.flatMap_cons, List.append_assoc,
      lines_piece hd (hp p (List.mem_cons_self ..)),
      ih fun q hq => hp q (List.mem_cons_of_mem _ hq), List.append_assoc]

/-- The boundary line of a piece does not close the message. -/
private theorem not_closing_of_fits {p : Piece} (hp : p.Fits d) :
    (d ++ [45, 45]).isPrefixOf (d ++ p.padding ++ p.opening.bytes) = false := by
  rw [Bool.eq_false_iff, ne_eq, List.isPrefixOf_iff_prefix, List.append_assoc,
    List.prefix_append_right_inj]
  intro hprefix
  have hno := hp.padding_open
  rw [List.isPrefixOf_iff_prefix.2
    (prefix_of_prefix_lineBreak (by decide) (by decide) p.opening hprefix)] at hno
  cases hno

/-- From the line that opens a piece on, the parts are read, and then what follows: the end of the
message or a boundary line. -/
private theorem partsFrom_pieces {pieces : List Piece} (hne : d ≠ []) (hcr : 13 ∉ d)
    (hlf : lineFeed ∉ d) (hp : ∀ p ∈ pieces, p.Fits d) {rest : List Bytes}
    (hrest : ∀ line ∈ rest.head?, d.isPrefixOf line = true) :
    partsFrom d (pieces.flatMap (Piece.lines d) ++ rest) =
      (partsFrom d rest).map (pieces.map Piece.part ++ ·) := by
  induction pieces with
  | nil =>
    rw [List.flatMap_nil, List.nil_append]
    cases partsFrom d rest <;> rfl
  | cons p pieces ih =>
    have hfits := hp p (List.mem_cons_self ..)
    have hnext : ∀ line ∈ (pieces.flatMap (Piece.lines d) ++ rest).head?,
        d.isPrefixOf line = true := by
      intro line hline
      cases pieces with
      | nil => exact hrest line hline
      | cons q pieces =>
        obtain rfl : d ++ q.padding ++ q.opening.bytes = line := Option.some.inj hline
        rw [List.append_assoc]
        exact List.isPrefixOf_iff_prefix.2 ⟨_, rfl⟩
    have hlast : (d ++ p.padding ++ p.opening.bytes).getLast? = some lineFeed := by
      rw [LineBreak.bytes_eq, ← List.append_assoc, List.getLast?_concat]
    have hin : ∀ l ∈ lines (p.part ++ p.closing.bytes), (!d.isPrefixOf l) = true := by
      intro l hl
      rw [hfits.whole.append_lineBreak hne hcr hlf p.closing l hl]
      rfl
    -- the lines of this part reach up to the next boundary line, or to the end
    have hstop : ∀ later : List Bytes, (∀ line ∈ later.head?, d.isPrefixOf line = true) →
        later.takeWhile (fun line => !d.isPrefixOf line) = [] ∧
          later.dropWhile (fun line => !d.isPrefixOf line) = later := by
      intro later hlater
      cases later with
      | nil => exact ⟨rfl, rfl⟩
      | cons line later =>
        have hline := hlater line rfl
        rw [List.takeWhile_cons_of_neg (by rw [hline]; simp),
          List.dropWhile_cons_of_neg (by rw [hline]; simp)]
        exact ⟨rfl, rfl⟩
    obtain ⟨htake, hdrop⟩ := hstop _ hnext
    rw [List.flatMap_cons, List.append_assoc, Piece.lines, List.cons_append, partsFrom,
      if_neg (by rw [not_closing_of_fits hfits]; simp), if_neg (not_not_intro hlast)]
    dsimp only
    rw [List.takeWhile_append_of_pos hin, List.dropWhile_append_of_pos hin, htake, hdrop,
      ih fun q hq => hp q (List.mem_cons_of_mem _ hq), List.append_nil, flatten_lines,
      withoutLineBreak_append hfits.closing]
    cases partsFrom d rest <;> rfl

end Pieces

/-- A boundary line starts with two hyphens. -/
theorem delimiter_eq (boundary : String) :
    delimiter boundary = 45 :: 45 :: Utf8.encode boundary := by
  have hhyphens : Utf8.encode "--" = [45, 45] := by decide
  rw [delimiter, Utf8.encode_append, hhyphens]
  rfl

theorem delimiter_ne_nil (boundary : String) : delimiter boundary ≠ [] := by
  rw [delimiter_eq]
  exact List.cons_ne_nil _ _

/-- The pieces of a message are split into their parts, whatever comes of the rest. -/
private theorem split_pieces {boundary : String} {preamble : Bytes} {pieces : List Piece}
    (hcr : 13 ∉ delimiter boundary) (hlf : lineFeed ∉ delimiter boundary)
    (hpreamble : Preamble (delimiter boundary) preamble) (hne : pieces ≠ [])
    (hp : ∀ p ∈ pieces, p.Fits (delimiter boundary)) {rest : Bytes}
    (hrest : ∀ line ∈ (lines rest).head?, (delimiter boundary).isPrefixOf line = true) :
    split boundary (preamble ++ (pieces.flatMap (Piece.bytes (delimiter boundary)) ++ rest)) =
      (partsFrom (delimiter boundary) (lines rest)).map (pieces.map Piece.part ++ ·) := by
  have hparts := partsFrom_pieces (delimiter_ne_nil boundary) hcr hlf hp hrest
  have hall : lines (preamble ++ (pieces.flatMap (Piece.bytes (delimiter boundary)) ++ rest)) =
      lines preamble ++ (pieces.flatMap (Piece.lines (delimiter boundary)) ++ lines rest) := by
    rw [← lines_pieces hlf hp rest]
    rcases hpreamble.ended with rfl | hended
    · rfl
    · obtain ⟨front, rfl⟩ := List.getLast?_eq_some_iff.1 hended
      rw [List.append_assoc, List.singleton_append, lines_append]
  -- the lines of the preamble are passed over
  have hpassed : ∀ l ∈ lines preamble, (!(delimiter boundary).isPrefixOf l) = true := by
    intro l hl
    rw [hpreamble.whole l hl]
    rfl
  obtain ⟨p, pieces, rfl⟩ := List.exists_cons_of_ne_nil hne
  have hfirst : (delimiter boundary).isPrefixOf
      (delimiter boundary ++ p.padding ++ p.opening.bytes) = true :=
    List.isPrefixOf_iff_prefix.2 ⟨p.padding ++ p.opening.bytes, by rw [List.append_assoc]⟩
  rw [split, hall, List.dropWhile_append_of_pos hpassed]
  rw [List.flatMap_cons, Piece.lines, List.cons_append, List.cons_append] at hparts ⊢
  rw [List.dropWhile_cons_of_neg (by rw [hfirst]; simp)]
  dsimp only
  rw [hparts]
  cases partsFrom (delimiter boundary) (lines rest) <;> rfl

/-- What is framed is split into the same parts. -/
theorem split_framed {boundary : String} {preamble : Bytes} {pieces : List Piece}
    (hcr : 13 ∉ delimiter boundary) (hlf : lineFeed ∉ delimiter boundary)
    (hpreamble : Preamble (delimiter boundary) preamble) (hne : pieces ≠ [])
    (hp : ∀ p ∈ pieces, p.Fits (delimiter boundary)) (epilogue : Bytes) :
    split boundary (framed boundary preamble pieces epilogue) =
      .ok (pieces.map Piece.part) := by
  have hclose : lineFeed ∉ delimiter boundary ++ [45, 45] := by
    simpa [lineFeed] using hlf
  obtain ⟨tail, others, hlines⟩ := exists_lines_append hclose (by simp) epilogue
  have hopens : ∀ line ∈ (lines (delimiter boundary ++ [45, 45] ++ epilogue)).head?,
      (delimiter boundary).isPrefixOf line = true := by
    intro line hline
    rw [hlines] at hline
    obtain rfl : delimiter boundary ++ [45, 45] ++ tail = line := Option.some.inj hline
    exact List.isPrefixOf_iff_prefix.2 ⟨[45, 45] ++ tail, by rw [List.append_assoc]⟩
  have hclosed : partsFrom (delimiter boundary)
      (lines (delimiter boundary ++ [45, 45] ++ epilogue)) = .ok [] := by
    rw [hlines, partsFrom, if_pos (List.isPrefixOf_iff_prefix.2 ⟨tail, rfl⟩)]
  rw [framed, split_pieces hcr hlf hpreamble hne hp hopens, hclosed]
  show Except.ok (pieces.map Piece.part ++ []) = _
  rw [List.append_nil]

/-- A boundary without line breaks makes a delimiter without them. -/
theorem lineBreaks_not_mem_delimiter {boundary : String}
    (h : ∀ c ∈ boundary.toList, c ≠ '\r' ∧ c ≠ '\n') :
    13 ∉ delimiter boundary ∧ lineFeed ∉ delimiter boundary := by
  have hchars : ∀ c ∈ ("--" ++ boundary).toList, c ≠ '\r' ∧ c ≠ '\n' := by
    intro c hc
    rw [String.toList_append, List.mem_append] at hc
    rcases hc with hc | hc
    · obtain rfl : c = '-' := by simpa using hc
      decide
    · exact h c hc
  constructor
  · intro hmem
    exact (hchars '\r' (Utf8.mem_of_mem_encodeChars hmem (by decide))).1 rfl
  · intro hmem
    exact (hchars '\n' (Utf8.mem_of_mem_encodeChars hmem (by decide))).2 rfl

/-- Splitting undoes framing, whatever the parts, the paddings and the line breaks are and whatever
comes after the closing line. A message that is broken off before that line is refused. -/
theorem split_framed_and_unclosed {boundary : String}
    (hbreaks : ∀ c ∈ boundary.toList, c ≠ '\r' ∧ c ≠ '\n') {preamble : Bytes}
    {pieces : List Piece} (hpreamble : Preamble (delimiter boundary) preamble) (hne : pieces ≠ [])
    (hp : ∀ p ∈ pieces, p.Fits (delimiter boundary)) :
    (∀ epilogue, split boundary (framed boundary preamble pieces epilogue) =
      .ok (pieces.map Piece.part)) ∧
    split boundary (preamble ++ pieces.flatMap (Piece.bytes (delimiter boundary))) =
      .error .unclosed := by
  obtain ⟨hcr, hlf⟩ := lineBreaks_not_mem_delimiter hbreaks
  refine ⟨fun epilogue => split_framed hcr hlf hpreamble hne hp epilogue, ?_⟩
  have hend : ∀ line ∈ (lines []).head?, (delimiter boundary).isPrefixOf line = true := by
    intro line hline
    cases hline
  have hsplit := split_pieces hcr hlf hpreamble hne hp hend
  rw [List.append_nil] at hsplit
  rw [hsplit, lines, linesFrom, if_pos (by rfl), partsFrom]
  rfl

/-- An empty part, one that ends in a carriage return, and one that almost holds a boundary line. -/
def nearMisses : List Piece :=
  [{ padding := [45, 32], opening := .lineFeed, part := [], closing := .lineFeed },
    { part := [13, 10, 13] },
    { padding := [13], part := Utf8.encode " --b\n--B--\r\n", closing := .lineFeed }]

theorem split_nearMisses :
    let preamble := Utf8.encode "-b\n"
    (∀ c ∈ "b".toList, c ≠ '\r' ∧ c ≠ '\n') ∧ Preamble (delimiter "b") preamble ∧
      nearMisses ≠ [] ∧ (∀ p ∈ nearMisses, p.Fits (delimiter "b")) ∧
      split "b" (framed "b" preamble nearMisses (Utf8.encode "\n--b")) =
        .ok [[], [13, 10, 13], Utf8.encode " --b\n--B--\r\n"] ∧
      split "b" (preamble ++ nearMisses.flatMap (Piece.bytes (delimiter "b"))) =
        .error .unclosed := by
  intro preamble
  have hbreaks : ∀ c ∈ "b".toList, c ≠ '\r' ∧ c ≠ '\n' := by simp
  have hpreamble : Preamble (delimiter "b") preamble := by decide +kernel
  have hne : nearMisses ≠ [] := List.cons_ne_nil _ _
  have hfits : ∀ p ∈ nearMisses, p.Fits (delimiter "b") := by decide +kernel
  obtain ⟨hsplit, hbroken⟩ := split_framed_and_unclosed hbreaks hpreamble hne hfits
  exact ⟨hbreaks, hpreamble, hne, hfits, hsplit _, hbroken⟩

/-- Parts are joined as pieces with line breaks of two bytes and nothing else. -/
private theorem join_eq_framed (boundary : String) (parts : List Bytes) :
    join boundary parts = framed boundary [] (parts.map fun part => { part }) crlf := by
  rw [join, framed, List.flatMap_map]
  simp [Piece.bytes, LineBreak.bytes, crlf]

private theorem fits_of_whole {d : Bytes} {parts : List Bytes} (h : ∀ part ∈ parts, Whole d part) :
    ∀ p ∈ parts.map fun part => ({ part } : Piece), p.Fits d := by
  intro p hp
  obtain ⟨part, hpart, rfl⟩ := List.mem_map.1 hp
  exact ⟨by simp, rfl, h part hpart, by simp⟩

/-- The parts that were joined are found again. -/
theorem split_join {boundary : String} {parts : List Bytes} (hcr : 13 ∉ delimiter boundary)
    (hlf : lineFeed ∉ delimiter boundary) (hne : parts ≠ [])
    (h : ∀ part ∈ parts, Whole (delimiter boundary) part) :
    split boundary (join boundary parts) = .ok parts := by
  have hparts : (parts.map fun part => ({ part } : Piece)).map Piece.part = parts := by
    rw [List.map_map]
    exact List.map_id parts
  rw [join_eq_framed, split_framed hcr hlf ⟨.inl rfl, by simp [Whole, lines, linesFrom]⟩
    (by simpa using hne) (fits_of_whole h), hparts]

/-! ## How many boundary lines there are -/

/-- Whether a line starts at this place, and the pattern with it. -/
def startsLine (pattern bs : Bytes) (i : Nat) : Bool :=
  (i = 0 || bs[i - 1]? = some lineFeed) && pattern.isPrefixOf (bs.drop i)

/-- Up to the first line feed only the first place starts a line. -/
private theorem countP_startsLine_first {d front : Bytes} (h : lineFeed ∉ front) (rest : Bytes)
    {k : Nat} (hk : k ≤ front.length) :
    (List.range (k + 1)).countP (startsLine d (front ++ rest)) =
      if d.isPrefixOf (front ++ rest) then 1 else 0 := by
  have hlater : (List.range k).countP (startsLine d (front ++ rest) ∘ Nat.succ) = 0 := by
    rw [List.countP_eq_zero]
    intro i hi
    have hlt : i < front.length := Nat.lt_of_lt_of_le (List.mem_range.1 hi) hk
    have hne : front[i]? ≠ some lineFeed := fun heq => h (List.mem_of_getElem? heq)
    simp [startsLine, List.getElem?_append_left hlt, hne]
  rw [List.range_succ_eq_map, List.countP_cons, List.countP_map, hlater]
  simp [startsLine]

/-- Behind a line feed lines start where they start in what follows. -/
private theorem startsLine_behind {d : Bytes} (front rest : Bytes) (i : Nat) :
    startsLine d (front ++ lineFeed :: rest) (front.length + 1 + i) = startsLine d rest i := by
  have hdrop : (front ++ lineFeed :: rest).drop (front.length + 1 + i) = rest.drop i := by
    rw [List.drop_append, List.drop_eq_nil_of_le (by omega), List.nil_append,
      show front.length + 1 + i - front.length = i + 1 by omega, List.drop_succ_cons]
  have hfeed : (front ++ lineFeed :: rest)[front.length + 1 + i - 1]? = some lineFeed ↔
      i = 0 ∨ rest[i - 1]? = some lineFeed := by
    rw [List.getElem?_append_right (by omega),
      show front.length + 1 + i - 1 - front.length = i by omega]
    cases i with
    | zero => simp
    | succ i => simp
  have hne : front.length + 1 + i ≠ 0 := by omega
  rw [startsLine, startsLine, hdrop]
  simp only [hfeed, hne, decide_false, Bool.false_or, Bool.decide_or]

/-- What is left behind the last line feed is one line. -/
private theorem lines_eq_singleton {bs : Bytes} (h : lineFeed ∉ bs) (hne : bs ≠ []) :
    lines bs = [bs] := by
  have hfrom : ∀ line, line ++ bs ≠ [] → linesFrom line bs = [line.reverse ++ bs] := by
    clear hne
    induction bs with
    | nil =>
      intro line hline
      rw [List.append_nil] at hline
      rw [linesFrom, List.isEmpty_eq_false_iff.2 hline, List.append_nil]
      rfl
    | cons b bs ih =>
      rw [List.mem_cons, not_or] at h
      intro line _
      rw [linesFrom, if_neg (Ne.symm h.1), ih h.2 _ (List.cons_ne_nil _ _), List.reverse_cons,
        List.append_assoc, List.singleton_append]
  exact hfrom [] hne

/-- A pattern without line feeds starts as many lines as there are lines that start with it. -/
theorem countP_startsLine {d : Bytes} (hlf : lineFeed ∉ d) (bs : Bytes) :
    (List.range bs.length).countP (startsLine d bs) = (lines bs).countP d.isPrefixOf := by
  induction hn : bs.length using Nat.strongRecOn generalizing bs with
  | ind n ih =>
    by_cases hmem : lineFeed ∈ bs
    · obtain ⟨front, rest, rfl, hfront⟩ := List.eq_append_cons_of_mem hmem
      have hfirst : d.isPrefixOf (front ++ lineFeed :: rest) =
          d.isPrefixOf (front ++ [lineFeed]) := by
        have hline : front ++ [lineFeed] <+: front ++ lineFeed :: rest := ⟨rest, by simp⟩
        rw [Bool.eq_iff_iff, List.isPrefixOf_iff_prefix, List.isPrefixOf_iff_prefix]
        refine ⟨fun h => ?_, fun h => h.trans hline⟩
        rcases List.prefix_or_prefix_of_prefix h hline with h | h
        · exact h
        · exact absurd (h.subset (by simp)) hlf
      obtain rfl : n = front.length + 1 + rest.length := by
        rw [← hn, List.length_append, List.length_cons]
        omega
      have hbehind : startsLine d (front ++ lineFeed :: rest) ∘ (front.length + 1 + ·) =
          startsLine d rest := funext (startsLine_behind front rest)
      rw [lines_line hfront, List.countP_cons, ← ih rest.length (by omega) rest rfl,
        List.range_add, List.countP_append, List.countP_map, hbehind,
        countP_startsLine_first hfront _ (Nat.le_refl _), hfirst, Nat.add_comm]
    · cases bs with
      | nil =>
        subst hn
        rfl
      | cons b bs =>
        have hfirst := countP_startsLine_first (d := d) hmem [] (Nat.le_succ bs.length)
        rw [List.append_nil] at hfirst
        rw [← hn, List.length_cons, hfirst, lines_eq_singleton hmem (List.cons_ne_nil _ _),
          List.countP_cons, List.countP_nil, Nat.zero_add]

/-- A piece has one boundary line, the one that opens it. -/
private theorem countP_pieces {d : Bytes} (hne : d ≠ []) (hcr : 13 ∉ d) (hlf : lineFeed ∉ d)
    {pieces : List Piece} (hp : ∀ p ∈ pieces, p.Fits d) :
    (pieces.flatMap (Piece.lines d)).countP d.isPrefixOf = pieces.length := by
  induction pieces with
  | nil => rfl
  | cons p pieces ih =>
    rw [List.forall_mem_cons] at hp
    have hopens : d.isPrefixOf (d ++ p.padding ++ p.opening.bytes) = true := by
      rw [List.isPrefixOf_iff_prefix, List.append_assoc]
      exact List.prefix_append _ _
    have hwhole : (lines (p.part ++ p.closing.bytes)).countP d.isPrefixOf = 0 := by
      rw [List.countP_eq_zero]
      intro line hline
      rw [hp.1.whole.append_lineBreak hne hcr hlf p.closing line hline]
      exact Bool.false_ne_true
    rw [List.flatMap_cons, List.countP_append, Piece.lines, List.countP_cons_of_pos hopens, hwhole,
      ih hp.2, List.length_cons, Nat.zero_add, Nat.add_comm]

/-- Parts that hold no boundary line are joined by one more of them than there are parts. -/
theorem countP_startsLine_join {boundary : String} {parts : List Bytes}
    (hcr : 13 ∉ delimiter boundary) (hlf : lineFeed ∉ delimiter boundary)
    (h : ∀ part ∈ parts, Whole (delimiter boundary) part) :
    (List.range (join boundary parts).length).countP
        (startsLine (delimiter boundary) (join boundary parts)) = parts.length + 1 := by
  have hfits := fits_of_whole h
  have hclose : lineFeed ∉ delimiter boundary ++ [45, 45, 13] := by
    simpa [lineFeed] using hlf
  have hlast : lines (delimiter boundary ++ [45, 45] ++ crlf) =
      [delimiter boundary ++ [45, 45] ++ crlf] := by
    have hlines := lines_line hclose []
    rw [show lines [] = [] from rfl] at hlines
    simpa [crlf, lineFeed] using hlines
  rw [countP_startsLine hlf, join_eq_framed, framed, List.nil_append, lines_pieces hlf hfits, hlast,
    List.countP_append, countP_pieces (delimiter_ne_nil boundary) hcr hlf hfits, List.length_map,
    List.countP_cons_of_pos, List.countP_nil]
  rw [List.isPrefixOf_iff_prefix, List.append_assoc]
  exact List.prefix_append _ _

/-! ## What keeps a part whole -/

/-- Where the delimiter does not occur, no line starts with it. -/
theorem whole_of_not_occurs {d content : Bytes} (h : ¬d <:+: content) : Whole d content := by
  intro line hline
  rw [Bool.eq_false_iff, ne_eq, List.isPrefixOf_iff_prefix]
  rintro ⟨tail, rfl⟩
  obtain ⟨before, after, hcontent⟩ : d ++ tail <:+: content := by
    rw [← flatten_lines content]
    exact List.infix_of_mem_flatten hline
  exact h ⟨before, tail ++ after, by rw [← hcontent]; simp⟩

/-- A line in front that does not start with the delimiter changes nothing. -/
theorem Whole.cons {d line rest : Bytes} (h : Whole d rest) (hline : lineFeed ∉ line)
    (hstart : d.isPrefixOf (line ++ [lineFeed]) = false) : Whole d (line ++ lineFeed :: rest) := by
  intro l hl
  rw [lines_line hline, List.mem_cons] at hl
  rcases hl with rfl | hl
  · exact hstart
  · exact h l hl

end SoapMtom.Mime.Framing
