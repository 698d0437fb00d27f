import SoapMtom.Proofs.Mime.HeaderEnd

/-!
# Words on several lines

The value of a field may be made of words, and a line break with a blank after it may stand in place
of any space between them. The field is read as if it stood on one line; only where the line break
stands right after the colon, a space is left in front of the value. Main statements:

> `Part.foldlM_foldLines`: line by line the words are put together again.
>
> `Part.read_withWords_eq_iff`: a part is read as if its field stood on one line, exactly if no line
> break stands right after the colon.
-/

namespace SoapMtom.Mime

/-- What stands in front of a word: a space, or a line break and a blank. -/
inductive Gap where
  | space
  | foldSpace
  | foldTab
deriving DecidableEq, Repr

namespace Gap

/-- The characters of a gap. -/
def chars : Gap → List Char
  | .space => [' ']
  | .foldSpace => ['\r', '\n', ' ']
  | .foldTab => ['\r', '\n', '\t']

/-- Whether there is a line break in the gap. -/
def isFold : Gap → Bool
  | .space => false
  | .foldSpace | .foldTab => true

/-- The last character of a gap. -/
def blank : Gap → Char
  | .space | .foldSpace => ' '
  | .foldTab => '\t'

theorem blank_eq (g : Gap) : g.blank = ' ' ∨ g.blank = '\t' := by
  cases g
  · exact .inl rfl
  · exact .inl rfl
  · exact .inr rfl

theorem blank_of_not_isFold {g : Gap} (h : ¬g.isFold = true) : g.blank = ' ' := by
  cases g with
  | space => rfl
  | foldSpace | foldTab => exact absurd rfl h

theorem chars_eq (g : Gap) :
    g.chars = if g.isFold then ['\r', '\n', g.blank] else [g.blank] := by
  cases g <;> rfl

end Gap

/-- A word of a value: it is not empty and holds no blank. -/
structure IsWord (word : String) : Prop where
  ne_empty : word ≠ ""
  plain : ∀ c ∈ word.toList, Text.isBlank c = false

instance : DecidablePred IsWord := fun word =>
  have := List.decidableBAll (Text.isBlank · = false) word.toList
  decidable_of_iff (_ ∧ _) ⟨fun ⟨h₁, h₂⟩ => ⟨h₁, h₂⟩, fun ⟨h₁, h₂⟩ => ⟨h₁, h₂⟩⟩

/-- A field whose value is made of words, each with the gap in front of it. -/
structure WordField where
  name : String
  words : List (Gap × String)
deriving DecidableEq, Repr

namespace WordField

/-- The field as it is written. -/
def chars (w : WordField) : List Char :=
  w.name.toList ++ ':' :: w.words.flatMap fun p => p.1.chars ++ p.2.toList

/-- The words, with a space between each and the next. -/
def value (w : WordField) : String := String.intercalate " " (w.words.map (·.2))

/-- The field with a space in each gap. -/
def onOneLine (w : WordField) : WordField :=
  { w with words := w.words.map fun p => (.space, p.2) }

/-- Whether there is a line break right after the colon. -/
def foldsFirst (w : WordField) : Bool :=
  match w.words with
  | [] => false
  | p :: _ => p.1.isFold

/-- A field that has words, under a name that fits on a line. -/
structure Proper (w : WordField) : Prop where
  name : IsLineName w.name
  words_ne : w.words ≠ []
  words : ∀ p ∈ w.words, IsWord p.2

instance (w : WordField) : Decidable w.Proper :=
  decidable_of_iff (_ ∧ _ ∧ _) ⟨fun ⟨h₁, h₂, h₃⟩ => ⟨h₁, h₂, h₃⟩, fun ⟨h₁, h₂, h₃⟩ => ⟨h₁, h₂, h₃⟩⟩

end WordField

/-! ## Words in a line -/

/-- Characters with something else than blanks at both ends. -/
structure IsTight (cs : List Char) : Prop where
  first : ∃ c, cs.head? = some c ∧ Text.isBlank c = false
  last : ∃ c, cs.getLast? = some c ∧ Text.isBlank c = false

theorem IsTight.trimChars_eq {cs : List Char} (h : IsTight cs) : Text.trimChars cs = cs := by
  obtain ⟨⟨c, hc, hfirst⟩, d, hd, hlast⟩ := h
  refine Text.trimChars_of_ends (fun c' hc' => ?_) fun d' hd' => ?_
  · rw [Option.mem_def, hc] at hc'
    rwa [← Option.some.inj hc']
  · rw [Option.mem_def, hd] at hd'
    rwa [← Option.some.inj hd']

namespace IsWord

variable {word : String}

theorem isTight (h : IsWord word) : IsTight word.toList := by
  have hne : word.toList ≠ [] := fun he => h.ne_empty (String.toList_eq_nil_iff.1 he)
  have hfirst := List.head?_eq_some_head hne
  have hlast := List.getLast?_eq_some_getLast hne
  exact ⟨⟨_, hfirst, h.plain _ (List.mem_of_mem_head? hfirst)⟩,
    ⟨_, hlast, h.plain _ (List.mem_of_getLast? hlast)⟩⟩

/-- A word after others ends with its own last character. -/
theorem getLast?_append (h : IsWord word) (cs : List Char) (c : Char) :
    (cs ++ c :: word.toList).getLast? = word.toList.getLast? := by
  obtain ⟨d, hd, -⟩ := h.isTight.last
  rw [List.getLast?_append, List.getLast?_cons, hd]
  rfl

theorem isTight_append (h : IsWord word) {cs : List Char} (hcs : IsTight cs) :
    IsTight (cs ++ ' ' :: word.toList) := by
  obtain ⟨c, hc, hfirst⟩ := hcs.first
  refine ⟨⟨c, ?_, hfirst⟩, ?_⟩
  · rw [List.head?_append, hc]
    rfl
  · rw [h.getLast?_append]
    exact h.isTight.last

/-- A line with one more word is a line of a header. -/
theorem isHeaderLine_append (h : IsWord word) {line : List Char} (hline : '\n' ∉ line)
    (hstart : ∀ c ∈ line.head?, c ≠ '\r') (g : Gap) :
    IsHeaderLine (line ++ g.blank :: word.toList) := by
  obtain ⟨d, hd, hlast⟩ := h.isTight.last
  refine ⟨fun hmem => ?_, ?_, fun hcr => ?_⟩
  · rcases List.mem_append.1 hmem with hmem | hmem
    · exact hline hmem
    · rcases List.mem_cons.1 hmem with heq | hmem
      · cases g <;> exact absurd heq (by decide)
      · exact Text.ne_of_isBlank Text.isBlank_lineFeed (h.plain _ hmem) rfl
  · cases line with
    | nil => exact ⟨g.blank, word.toList, rfl, by cases g <;> decide⟩
    | cons c cs => exact ⟨c, cs ++ g.blank :: word.toList, rfl, hstart c rfl⟩
  · rw [h.getLast?_append, hd] at hcr
    exact Text.ne_of_isBlank Text.isBlank_carriageReturn hlast (Option.some.inj hcr).symm

end IsWord

namespace Part

/-! ## Lines of words -/

/-- The lines on which a line goes on with these words. -/
def foldLines (line : List Char) : List (Gap × String) → List (List Char)
  | [] => [line]
  | (gap, word) :: rest =>
    if gap.isFold then line :: foldLines (gap.blank :: word.toList) rest
    else foldLines (line ++ gap.blank :: word.toList) rest

/-- Words after a space each. -/
def spaced (words : List (Gap × String)) : List Char := words.flatMap fun p => ' ' :: p.2.toList

theorem encodeChars_foldLines (line : List Char) (words : List (Gap × String)) :
    (foldLines line words).flatMap (fun l => Utf8.encodeChars l ++ Framing.crlf) =
      Utf8.encodeChars (line ++ words.flatMap fun p => p.1.chars ++ p.2.toList) ++
        Framing.crlf := by
  induction words generalizing line with
  | nil => simp [foldLines]
  | cons p words ih =>
    obtain ⟨gap, word⟩ := p
    rw [foldLines, List.flatMap_cons, gap.chars_eq]
    generalize words.flatMap (fun p => p.1.chars ++ p.2.toList) = others at ih ⊢
    split
    · have hsplit : line ++ (['\r', '\n', gap.blank] ++ word.toList ++ others) =
          line ++ Framing.LineBreak.crlf.chars ++ (gap.blank :: word.toList ++ others) := by
        simp [Framing.LineBreak.chars]
      rw [List.flatMap_cons, ih, hsplit, Utf8.encodeChars_append, Utf8.encodeChars_append,
        Utf8.encodeChars_append, Utf8.encodeChars_append, Framing.LineBreak.encodeChars_chars]
      simp only [List.append_assoc]
      rfl
    · rw [ih]
      simp only [List.append_assoc, List.cons_append, List.nil_append]

theorem isHeaderLine_of_mem_foldLines {line : List Char} (hline : IsHeaderLine line)
    {words : List (Gap × String)} (hwords : ∀ p ∈ words, IsWord p.2) :
    ∀ l ∈ foldLines line words, IsHeaderLine l := by
  induction words generalizing line with
  | nil => exact List.forall_mem_singleton.2 hline
  | cons p words ih =>
    obtain ⟨gap, word⟩ := p
    obtain ⟨hword, hwords⟩ := List.forall_mem_cons.1 hwords
    rw [foldLines]
    split
    · have hnext : IsHeaderLine ([] ++ gap.blank :: word.toList) :=
        hword.isHeaderLine_append List.not_mem_nil (by simp) gap
      exact List.forall_mem_cons.2 ⟨hline, ih hnext hwords⟩
    · refine ih (hword.isHeaderLine_append hline.unbroken (fun c hc => ?_) gap) hwords
      obtain ⟨d, cs, rfl, hd⟩ := hline.start
      obtain rfl := Option.some.inj hc
      exact hd

/-- After `fields` have been read, what is on a line behind `front` is added to the value of `f`,
which follows the fields `before`. -/
def Adds (fields : List HeaderField) (front : List Char) (f : HeaderField)
    (before : List HeaderField) : Prop :=
  ∀ cs, IsTight cs →
    readLine fields (front ++ cs) = .ok ({ f with value := f.value ++ String.ofList cs } :: before)

/-- A line that carries a field on adds a space and what is on it. -/
theorem adds_blank (g : Gap) (f : HeaderField) (before : List HeaderField) :
    Adds (f :: before) [g.blank] { f with value := f.value ++ " " } before := by
  intro cs hcs
  have hblank : Text.isBlank g.blank = true := by
    rcases g.blank_eq with hg | hg
    · rw [hg]
      exact Text.isBlank_space
    · rw [hg]
      exact Text.isBlank_tab
  rw [List.singleton_append, (readLine_blank g.blank_eq cs).2, Text.trimChars_cons hblank,
    hcs.trimChars_eq]

/-- A line that names a field gives it what is on it for a value. -/
theorem adds_named {name : String} (h : IsLineName name) (before : List HeaderField) :
    Adds before (name.toList ++ [':', ' ']) { name := Text.lower name, value := "" } before := by
  intro cs hcs
  rw [List.append_assoc, List.cons_append, List.cons_append, List.nil_append, h.readLine_eq,
    Text.trimChars_cons Text.isBlank_space, hcs.trimChars_eq, String.empty_append]

/-- Line by line words are added to a value, if a line with no more words on it adds them. -/
theorem foldlM_foldLines {words : List (Gap × String)} (hwords : ∀ p ∈ words, IsWord p.2)
    {front cs : List Char} (hcs : IsTight cs) {fields before : List HeaderField} {f : HeaderField}
    (h : Adds fields front f before) :
    (foldLines (front ++ cs) words).foldlM readLine fields =
      .ok ({ f with value := f.value ++ String.ofList (cs ++ spaced words) } :: before) := by
  induction words generalizing front cs fields f with
  | nil =>
    rw [foldLines, List.foldlM_cons, h cs hcs, spaced, List.flatMap_nil, List.append_nil]
    rfl
  | cons p words ih =>
    obtain ⟨gap, word⟩ := p
    obtain ⟨hword, hwords⟩ := List.forall_mem_cons.1 hwords
    have hspaced : cs ++ spaced ((gap, word) :: words) =
        cs ++ ' ' :: word.toList ++ spaced words := by
      simp [spaced]
    rw [foldLines]
    split
    · -- the next line adds to what this one leaves
      have hnext := ih hwords hword.isTight
        (adds_blank gap { f with value := f.value ++ String.ofList cs } before)
      have hvalue : f.value ++ String.ofList cs ++ " " ++
          String.ofList (word.toList ++ spaced words) =
            f.value ++ String.ofList (cs ++ ' ' :: word.toList ++ spaced words) := by
        rw [← String.toList_inj]
        simp
      rw [List.foldlM_cons, h cs hcs, hspaced, ← hvalue]
      exact hnext
    · next hspace =>
      rw [Gap.blank_of_not_isFold hspace, List.append_assoc,
        ih hwords (hword.isTight_append hcs) h, hspaced]

/-! ## Parts with words -/

/-- A part with a field of words between other fields. -/
def withWords (before : List HeaderField) (w : WordField) (after : List HeaderField)
    (content : Bytes) : Bytes :=
  before.flatMap (fun f => Utf8.encodeChars f.line ++ Framing.crlf) ++
    (Utf8.encodeChars w.chars ++ Framing.crlf) ++ written after content

/-- The field as it is read: a line break after the colon leaves a space. -/
def fieldOf (w : WordField) : HeaderField :=
  { name := Text.lower w.name, value := (if w.foldsFirst then " " else "") ++ w.value }

/-- The lines of a field of words. -/
def linesOf (w : WordField) : List (List Char) := foldLines (w.name.toList ++ [':']) w.words

theorem withWords_eq (before : List HeaderField) (w : WordField) (after : List HeaderField)
    (content : Bytes) :
    withWords before w after content =
      headed (before.map HeaderField.line ++ (linesOf w ++ after.map HeaderField.line)) content := by
  have hlines : (linesOf w).flatMap (fun line => Utf8.encodeChars line ++ Framing.crlf) =
      Utf8.encodeChars w.chars ++ Framing.crlf := by
    rw [linesOf, encodeChars_foldLines, WordField.chars, List.append_assoc]
    rfl
  rw [withWords, written, headed, headed, List.flatMap_append, List.flatMap_append, hlines]
  simp only [List.flatMap_map, List.append_assoc]

theorem isHeaderLine_of_mem_linesOf {w : WordField} (h : w.Proper) :
    ∀ l ∈ linesOf w, IsHeaderLine l := by
  obtain ⟨c, cs, hname, hcr⟩ := h.name.exists_cons
  refine isHeaderLine_of_mem_foldLines ⟨fun hmem => ?_, ⟨c, cs ++ [':'], ?_, hcr⟩, ?_⟩ h.words
  · rcases List.mem_append.1 hmem with hmem | hmem
    · exact (h.name.plain _ hmem).2.2 rfl
    · exact absurd hmem (by decide)
  · rw [hname]
    rfl
  · rw [List.getLast?_concat]
    decide

/-- The words of a value, the first of them without the space before it. -/
theorem value_eq {w : WordField} {gap : Gap} {word : String} {words : List (Gap × String)}
    (h : w.words = (gap, word) :: words) : w.value = String.ofList (word.toList ++ spaced words) := by
  rw [← String.toList_inj, WordField.value, h, List.map_cons, String.toList_ofList]
  clear h
  induction words generalizing word with
  | nil => simp [spaced]
  | cons p words ih =>
    rw [List.map_cons, String.intercalate_cons_cons, String.toList_append, ih]
    simp [spaced]

/-- Line by line a field of words is read. -/
theorem foldlM_linesOf {w : WordField} (h : w.Proper) (before : List HeaderField) :
    (linesOf w).foldlM readLine before = .ok (fieldOf w :: before) := by
  obtain ⟨⟨gap, word⟩, words, hw⟩ := List.exists_cons_of_ne_nil h.words_ne
  have hwords := h.words
  rw [hw] at hwords
  obtain ⟨hword, hwords⟩ := List.forall_mem_cons.1 hwords
  rw [linesOf, fieldOf, WordField.foldsFirst, value_eq hw, hw]
  dsimp only
  rw [foldLines]
  split
  · -- nothing stands on the first line, and the next one adds a space
    have hnext := foldlM_foldLines hwords hword.isTight
      (adds_blank gap { name := Text.lower w.name, value := "" } before)
    rw [List.foldlM_cons, h.name.readLine_eq]
    exact hnext
  · next hspace =>
    have hfirst := foldlM_foldLines hwords hword.isTight (adds_named h.name before)
    rw [Gap.blank_of_not_isFold hspace]
    rw [List.append_assoc] at hfirst ⊢
    exact hfirst

/-- A part with a field of words is read as its fields and its content. -/
theorem read_withWords {w : WordField} (hw : w.Proper) {before after : List HeaderField}
    (hbefore : ∀ f ∈ before, f.FitsLine) (hafter : ∀ f ∈ after, f.FitsLine) (content : Bytes) :
    read (withWords before w after content) =
      .ok { fields := before.map HeaderField.lowered ++ fieldOf w :: after.map HeaderField.lowered
            body := content } := by
  have hlines : ∀ l ∈ before.map HeaderField.line ++ (linesOf w ++ after.map HeaderField.line),
      IsHeaderLine l := by
    rw [List.forall_mem_append, List.forall_mem_append, List.forall_mem_map, List.forall_mem_map]
    exact ⟨fun f hf => (hbefore f hf).isHeaderLine, isHeaderLine_of_mem_linesOf hw,
      fun f hf => (hafter f hf).isHeaderLine⟩
  have hread : (before.map HeaderField.line ++
      (linesOf w ++ after.map HeaderField.line)).foldlM readLine [] =
        .ok ((after.map HeaderField.lowered).reverse ++
          fieldOf w :: (before.map HeaderField.lowered).reverse) := by
    rw [List.foldlM_append, foldlM_lines fun f hf => (hbefore f hf).readLine_line, List.append_nil]
    show (linesOf w ++ after.map HeaderField.line).foldlM readLine _ = _
    rw [List.foldlM_append, foldlM_linesOf hw]
    show (after.map HeaderField.line).foldlM readLine _ = _
    rw [foldlM_lines fun f hf => (hafter f hf).readLine_line]
  rw [withWords_eq, read_headed hlines, hread]
  simp [Except.map]

theorem proper_onOneLine {w : WordField} (h : w.Proper) : w.onOneLine.Proper := by
  refine ⟨h.name, by simpa [WordField.onOneLine] using h.words_ne, ?_⟩
  rw [WordField.onOneLine, List.forall_mem_map]
  exact h.words

theorem fieldOf_onOneLine (w : WordField) :
    fieldOf w.onOneLine = { name := Text.lower w.name, value := w.value } := by
  have hvalue : w.onOneLine.value = w.value := by
    rw [WordField.value, WordField.value, WordField.onOneLine, List.map_map]
    rfl
  have hfolds : w.onOneLine.foldsFirst = false := by
    obtain ⟨name, words⟩ := w
    cases words <;> rfl
  rw [fieldOf, hvalue, hfolds]
  exact congrArg (HeaderField.mk _) String.empty_append

/-- On one line a field of words has the words for its value, with spaces between them. On several
lines it has the same value, and the part is read as the same, exactly if no line break stands right
after the colon; otherwise a space is left in front of the value. -/
theorem read_withWords_eq_iff {w : WordField} (hw : w.Proper) {before after : List HeaderField}
    (hbefore : ∀ f ∈ before, f.FitsLine) (hafter : ∀ f ∈ after, f.FitsLine) (content : Bytes) :
    read (withWords before w.onOneLine after content) =
        .ok { fields := before.map HeaderField.lowered ++
                { name := Text.lower w.name, value := w.value } :: after.map HeaderField.lowered
              body := content } ∧
      (read (withWords before w after content) = read (withWords before w.onOneLine after content) ↔
        w.foldsFirst = false) ∧
      (w.foldsFirst = true → read (withWords before w after content) =
        .ok { fields := before.map HeaderField.lowered ++
                { name := Text.lower w.name, value := " " ++ w.value } ::
                  after.map HeaderField.lowered
              body := content }) := by
  have hline := read_withWords (proper_onOneLine hw) hbefore hafter content
  have hread := read_withWords hw hbefore hafter content
  rw [fieldOf_onOneLine] at hline
  refine ⟨hline, ?_, fun hfolds => ?_⟩
  · rw [hread, hline]
    cases hfolds : w.foldsFirst with
    | false => simp [fieldOf, hfolds]
    | true =>
      -- the value is longer by one character
      have hlonger : " " ++ w.value ≠ w.value := by
        intro heq
        have hlength := congrArg String.length heq
        rw [String.length_append] at hlength
        exact absurd hlength (by simp)
      simp [fieldOf, hfolds, hlonger]
  · rw [hread, fieldOf, hfolds]
    rfl

/-- A media type on three lines. -/
def typeOnLines : WordField :=
  ⟨"Content-Type", [(.space, "text/plain;"), (.foldTab, "charset=utf-8;"), (.foldSpace, "x=:")]⟩

theorem read_typeOnLines :
    typeOnLines.Proper ∧ HeaderField.FitsLine ⟨"Content-ID", "<a@b>"⟩ ∧
      Utf8.encodeChars typeOnLines.chars =
        Utf8.encode "Content-Type: text/plain;\r\n\tcharset=utf-8;\r\n x=:" ∧
      read (withWords [⟨"Content-ID", "<a@b>"⟩] typeOnLines [] [13, 10, 13, 10]) =
        read (withWords [⟨"Content-ID", "<a@b>"⟩] typeOnLines.onOneLine [] [13, 10, 13, 10]) := by
  have hproper : typeOnLines.Proper := by decide +kernel
  have hid : HeaderField.FitsLine ⟨"Content-ID", "<a@b>"⟩ := by decide +kernel
  refine ⟨hproper, hid, by decide +kernel, ?_⟩
  exact (read_withWords_eq_iff hproper (List.forall_mem_singleton.2 hid) (by simp) _).2.1.2 rfl

/-- A transfer encoding on a line after its name. -/
def encodingOnNextLine : WordField := ⟨"Content-Transfer-Encoding", [(.foldSpace, "base64")]⟩

/-- A transfer encoding that stands on the line after its name has a space in front of it. -/
theorem not_read_onOneLine :
    ¬∀ (w : WordField) (before after : List HeaderField) (content : Bytes), w.Proper →
      (∀ f ∈ before, f.FitsLine) → (∀ f ∈ after, f.FitsLine) →
        (read (withWords before w after content)).map (·.field? (Text.lower w.name)) =
          (read (withWords before w.onOneLine after content)).map
            (·.field? (Text.lower w.name)) := by
  intro h
  have hproper : encodingOnNextLine.Proper := by decide +kernel
  have hsame := h encodingOnNextLine [] [] [] hproper (by simp) (by simp)
  have hfolded : (read (withWords [] encodingOnNextLine [] [])).map
      (·.field? (Text.lower encodingOnNextLine.name)) = .ok (some " base64") := by decide +kernel
  have hline : (read (withWords [] encodingOnNextLine.onOneLine [] [])).map
      (·.field? (Text.lower encodingOnNextLine.name)) = .ok (some "base64") := by decide +kernel
  rw [hfolded, hline] at hsame
  exact absurd hsame (by decide)

end Part

end SoapMtom.Mime
