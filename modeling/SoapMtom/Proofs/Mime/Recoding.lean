import SoapMtom.Proofs.Base64
import SoapMtom.Proofs.Mime.Folding

/-!
# A part in base 64

The content of a part may be given as it is or in base 64, and a field of the header says which. A
part that is given in base 64, with blanks among the symbols, has the same content, and it is called
and found as before. Main statements:

> `Part.foldlM_readLine_append`: where no line carries a field on, the fields before it stay.
>
> `Part.Recoded.exists_read`: a part in base 64 is read as one that says the same.
>
> `Part.Recoded.whole`: it holds no boundary line, if it held none before.
-/

namespace SoapMtom.Mime.Part

/-! ## Lines of a header -/

/-- The line does not carry on the field before it. -/
def Opens (line : List Char) : Prop := ∀ c ∈ line.head?, c ≠ ' ' ∧ c ≠ '\t'

/-- A line that carries a field on adds to its value. -/
theorem readLine_of_not_opens {line : List Char} (h : IsHeaderLine line) (hnot : ¬Opens line) :
    readLine [] line = .ok [] ∧ ∃ more, ∀ f before,
      readLine (f :: before) line = .ok ({ f with value := f.value ++ " " ++ more } :: before) := by
  obtain ⟨c, cs, rfl, -⟩ := h.start
  have hblank : c = ' ' ∨ c = '\t' := by
    by_contra hblank
    refine hnot fun d hd => ?_
    obtain rfl : c = d := Option.some.inj hd
    exact not_or.1 hblank
  exact ⟨(readLine_blank hblank cs).1, _, (readLine_blank hblank cs).2⟩

/-- Any other line starts a field or spoils the header. -/
theorem readLine_of_opens {line : List Char} (h : IsHeaderLine line) (hopens : Opens line) :
    (∃ f, ∀ before, readLine before line = .ok (f :: before)) ∨
      ∃ cause, ∀ before, readLine before line = .error cause := by
  obtain ⟨c, cs, rfl, -⟩ := h.start
  have hblank : ¬(decide (c = ' ') || decide (c = '\t')) = true := by
    obtain ⟨hspace, htab⟩ := hopens c rfl
    simp [hspace, htab]
  unfold readLine
  dsimp only
  simp only [if_neg hblank]
  cases Text.cutAt? ':' (c :: cs) with
  | none => exact .inr ⟨_, fun _ => rfl⟩
  | some p => exact .inl ⟨_, fun _ => rfl⟩

/-- What a line can do: carry on a field, start a field, or spoil the header. -/
theorem readLine_cases {line : List Char} (h : IsHeaderLine line) :
    (readLine [] line = .ok [] ∧ ∃ more, ∀ f before,
        readLine (f :: before) line = .ok ({ f with value := f.value ++ " " ++ more } :: before)) ∨
      (∃ f, ∀ before, readLine before line = .ok (f :: before)) ∨
        ∃ cause, ∀ before, readLine before line = .error cause := by
  by_cases hopens : Opens line
  · exact .inr (readLine_of_opens h hopens)
  · exact .inl (readLine_of_not_opens h hopens)

/-- Fields that no line carries on stay as they are. -/
theorem foldlM_readLine_append {lines : List (List Char)} (h : ∀ l ∈ lines, IsHeaderLine l)
    (hopens : ∀ l ∈ lines.head?, Opens l) (before : List HeaderField) :
    lines.foldlM readLine before = (lines.foldlM readLine []).map (· ++ before) := by
  -- behind a field of their own, lines leave those before it alone
  have hrest : ∀ (lines : List (List Char)) (f : HeaderField) (fs : List HeaderField),
      (∀ l ∈ lines, IsHeaderLine l) →
        lines.foldlM readLine (f :: fs ++ before) =
          (lines.foldlM readLine (f :: fs)).map (· ++ before) := by
    intro lines
    induction lines with
    | nil => exact fun _ _ _ => rfl
    | cons line lines ih =>
      intro f fs hlines
      obtain ⟨hline, hlines⟩ := List.forall_mem_cons.1 hlines
      rw [List.foldlM_cons, List.foldlM_cons]
      rcases readLine_cases hline with ⟨-, more, hmore⟩ | ⟨g, hg⟩ | ⟨cause, hcause⟩
      · rw [List.cons_append, hmore, hmore]
        exact ih _ fs hlines
      · rw [hg, hg]
        exact ih g (f :: fs) hlines
      · rw [hcause, hcause]
        rfl
  cases lines with
  | nil => rfl
  | cons line lines =>
    obtain ⟨hline, hlines⟩ := List.forall_mem_cons.1 h
    rw [List.foldlM_cons, List.foldlM_cons]
    rcases readLine_of_opens hline (hopens line rfl) with ⟨f, hf⟩ | ⟨cause, hcause⟩
    · rw [hf, hf]
      exact hrest lines f [] hlines
    · rw [hcause, hcause]
      rfl

/-! ## The field of the transfer encoding -/

/-- The name under which the transfer encoding is looked up. -/
def encodingName : String := "content-transfer-encoding"

/-- The line says that the transfer encoding is this one. -/
def SaysEncoding (line : List Char) (encoding : String) : Prop :=
  readLine [] line = .ok [{ name := encodingName, value := encoding }]

instance (line : List Char) (encoding : String) : Decidable (SaysEncoding line encoding) :=
  inferInstanceAs (Decidable (_ = _))

/-- A line with a field of another name does not say it. -/
theorem not_saysEncoding {line : List Char} {f : HeaderField} (h : readLine [] line = .ok [f])
    (hname : f.name ≠ encodingName) (encoding : String) : ¬SaysEncoding line encoding := by
  intro hsays
  rw [SaysEncoding, h] at hsays
  exact hname (congrArg HeaderField.name (List.head_eq_of_cons_eq (Except.ok.inj hsays)))

/-- None of the lines says what the transfer encoding is. -/
def Silent (lines : List (List Char)) : Prop :=
  ∀ l ∈ lines, ∀ encoding, ¬SaysEncoding l encoding

/-- The second header is the first with the line put into it: it takes the place of the one that
says what the transfer encoding is, or it stands between two fields if there is none. -/
inductive Sets (line : List Char) : List (List Char) → List (List Char) → Prop
  | replaced {before after : List (List Char)} {old : List Char} {encoding : String}
    (hold : SaysEncoding old encoding) (hsilent : Silent (before ++ after)) :
    Sets line (before ++ old :: after) (before ++ line :: after)
  | added {before after : List (List Char)} (hsilent : Silent (before ++ after))
    (hafter : ∀ l ∈ after.head?, Opens l) :
    Sets line (before ++ after) (before ++ line :: after)

/-- No other line is put into the header. -/
theorem Sets.eq_or_mem {line : List Char} {header header' : List (List Char)}
    (h : Sets line header header') : ∀ l ∈ header', l = line ∨ l ∈ header := by
  intro l hl
  cases h with
  | replaced hold hsilent =>
    rw [List.mem_append, List.mem_cons] at hl ⊢
    rcases hl with hl | hl | hl
    · exact .inr (.inl hl)
    · exact .inl hl
    · exact .inr (.inr (.inr hl))
  | added hsilent hafter =>
    rw [List.mem_append, List.mem_cons] at hl
    rw [List.mem_append]
    rcases hl with hl | hl | hl
    · exact .inr (.inl hl)
    · exact .inl hl
    · exact .inr (.inr hl)

/-- A line that says what the transfer encoding is does not start with a hyphen. -/
theorem SaysEncoding.exists_cons {line : List Char} {encoding : String}
    (h : SaysEncoding line encoding) : ∃ c cs, line = c :: cs ∧ c ≠ '-' := by
  rw [SaysEncoding] at h
  cases line with
  | nil => cases h
  | cons c cs =>
    refine ⟨c, cs, rfl, ?_⟩
    rintro rfl
    have hblank : ¬(decide ('-' = ' ') || decide ('-' = '\t')) = true := by decide
    unfold readLine at h
    dsimp only at h
    rw [if_neg hblank] at h
    cases hcut : Text.cutAt? ':' ('-' :: cs) with
    | none =>
      rw [hcut] at h
      cases h
    | some p =>
      obtain ⟨name, value⟩ := p
      rw [hcut] at h
      -- the name starts with a hyphen, and neither trimming nor lower case takes that away
      have hname : Text.lower (String.ofList (Text.trimChars name)) = encodingName :=
        congrArg HeaderField.name (List.head_eq_of_cons_eq (Except.ok.inj h))
      obtain ⟨rest, rfl⟩ : ∃ rest, name = '-' :: rest := by
        have hline := Text.eq_of_cutAt? hcut
        cases name with
        | nil => exact absurd (List.head_eq_of_cons_eq hline) (by decide)
        | cons d rest => exact ⟨rest, by rw [← List.head_eq_of_cons_eq hline]⟩
      have hhyphen : Text.isBlank '-' = false := by decide
      obtain ⟨rest', htrim⟩ := Text.exists_dropEndWhile hhyphen [] rest
      rw [Text.trimChars, Text.dropWhile_of_head (by simpa using hhyphen), ← List.nil_append (_ :: _),
        htrim] at hname
      have hfirst := congrArg (·.toList.head?) hname
      rw [Text.lower, String.toList_ofList, String.toList_ofList, List.nil_append, List.map_cons,
        List.head?_cons] at hfirst
      exact absurd hfirst (by decide)

/-- A line that says what the transfer encoding is, whatever was read before it. -/
theorem SaysEncoding.readLine_eq {line : List Char} {encoding : String}
    (h : SaysEncoding line encoding) (hline : IsHeaderLine line) (before : List HeaderField) :
    readLine before line = .ok ({ name := encodingName, value := encoding } :: before) := by
  rw [SaysEncoding] at h
  rcases readLine_cases hline with ⟨hnone, -⟩ | ⟨f, hf⟩ | ⟨cause, hcause⟩
  · rw [hnone] at h
    cases h
  · rw [hf] at h ⊢
    rw [List.head_eq_of_cons_eq (Except.ok.inj h)]
  · rw [hcause] at h
    cases h

/-- Silent lines make no field of that name. -/
theorem Silent.name_ne {lines : List (List Char)} (h : Silent lines)
    (hlines : ∀ l ∈ lines, IsHeaderLine l) {fields : List HeaderField}
    (hread : lines.foldlM readLine [] = .ok fields) : ∀ f ∈ fields, f.name ≠ encodingName := by
  refine foldlM_invariant (P := fun fs => ∀ f ∈ fs, f.name ≠ encodingName) ?_ (by simp) hread
  intro line hmem fs fs' hfs hstep
  rcases readLine_cases (hlines line hmem) with ⟨hnone, more, hmore⟩ | ⟨f, hf⟩ | ⟨cause, hcause⟩
  · cases fs with
    | nil =>
      rw [hnone] at hstep
      cases hstep
      simp
    | cons f fs =>
      rw [hmore] at hstep
      cases hstep
      rw [List.forall_mem_cons] at hfs ⊢
      exact hfs
  · rw [hf] at hstep
    cases hstep
    refine List.forall_mem_cons.2 ⟨fun hname => ?_, hfs⟩
    refine h line hmem f.value ?_
    rw [SaysEncoding, hf, ← hname]
  · rw [hcause] at hstep
    cases hstep

/-- The encodings that leave the content as it is. -/
def plainEncodings : List String := ["binary", "8bit", "7bit"]

/-- A field that is carried on does not name one of them: there is a space in it. -/
theorem exists_field_of_continued {after : List (List Char)} (hafter : ∀ l ∈ after, IsHeaderLine l)
    (hcontinued : ¬∀ l ∈ after.head?, Opens l) {f : HeaderField} {before fields : List HeaderField}
    (hread : after.foldlM readLine (f :: before) = .ok fields) :
    ∃ g ∈ fields, g.name = f.name ∧ ' ' ∈ g.value.toList := by
  cases after with
  | nil => exact absurd (by simp) hcontinued
  | cons line lines =>
    obtain ⟨hline, hlines⟩ := List.forall_mem_cons.1 hafter
    rw [List.foldlM_cons] at hread
    -- from the line that carries the field on, there is such a field among those that were read
    have hkept : ∀ {l : List Char} {fs fs' : List HeaderField}, IsHeaderLine l →
        (∃ g ∈ fs, g.name = f.name ∧ ' ' ∈ g.value.toList) → readLine fs l = .ok fs' →
          ∃ g ∈ fs', g.name = f.name ∧ ' ' ∈ g.value.toList := by
      rintro l fs fs' hl ⟨g, hg, hname, hspace⟩ hstep
      rcases readLine_cases hl with ⟨-, more, hmore⟩ | ⟨k, hk⟩ | ⟨cause, hcause⟩
      · obtain ⟨k, fs, rfl⟩ := List.exists_cons_of_ne_nil (List.ne_nil_of_mem hg)
        rw [hmore] at hstep
        cases hstep
        rcases List.mem_cons.1 hg with rfl | hg
        · refine ⟨_, List.mem_cons_self .., hname, ?_⟩
          rw [String.toList_append, String.toList_append, List.append_assoc]
          exact List.mem_append_left _ hspace
        · exact ⟨g, List.mem_cons_of_mem _ hg, hname, hspace⟩
      · rw [hk] at hstep
        cases hstep
        exact ⟨g, List.mem_cons_of_mem _ hg, hname, hspace⟩
      · rw [hcause] at hstep
        cases hstep
    have hnot : ¬Opens line := fun hopens => hcontinued fun l hl => by
      obtain rfl : line = l := Option.some.inj hl
      exact hopens
    obtain ⟨-, more, hmore⟩ := readLine_of_not_opens hline hnot
    rw [hmore] at hread
    refine foldlM_invariant (P := fun fs => ∃ g ∈ fs, g.name = f.name ∧ ' ' ∈ g.value.toList)
      (fun l hl fs fs' hfs hstep => hkept (hlines l hl) hfs hstep) ?_ hread
    refine ⟨_, List.mem_cons_self .., rfl, ?_⟩
    rw [String.toList_append, String.toList_append]
    exact List.mem_append_left _ (List.mem_append_right _ (by decide))

/-! ## The part in base 64 -/

/-- A part that can be read and is given as it is, and the same part in base 64: its content is
written in symbols with blanks among them, and its transfer encoding is set to that. -/
structure Recoded (header header' : List (List Char)) (content content' : Bytes) : Prop where
  lines : ∀ l ∈ header, IsHeaderLine l
  plain : ∃ p, read (headed header content) = .ok p ∧
    ∀ f ∈ p.fields, f.name = encodingName → Text.lower f.value ∈ plainEncodings
  base64 : ∃ line encoding, IsHeaderLine line ∧ SaysEncoding line encoding ∧
    Text.lower encoding = "base64" ∧ Sets line header header'
  content : content'.filter (!Text.isAsciiBlank ·) = Base64.encode content

/-- Two parts that are found under the same content id and hold the same. -/
structure Alike (p p' : Part) : Prop where
  contentId : p'.contentId? = p.contentId?
  contentType : p'.field? "content-type" = p.field? "content-type"
  content : p'.content = p.content

theorem Alike.refl (p : Part) : p.Alike p := ⟨rfl, rfl, rfl⟩

/-- No plain encoding has a space in it. -/
private theorem not_plain_of_space {value : String} (h : ' ' ∈ value.toList) :
    Text.lower value ∉ plainEncodings := by
  have hspace : ' ' ∈ (Text.lower value).toList := by
    rw [Text.lower, String.toList_ofList, List.mem_map]
    exact ⟨' ', h, by decide⟩
  have hnone : ∀ encoding ∈ plainEncodings, ' ' ∉ encoding.toList := by decide
  exact fun hmem => hnone _ hmem hspace

namespace Recoded

variable {header header' : List (List Char)} {content content' : Bytes}

/-- A header is read in two steps: the lines up to a place, and those behind it, which leave the
fields before them alone. -/
private theorem foldlM_readLine_split {before after : List (List Char)}
    (hlines : ∀ l ∈ after, IsHeaderLine l) (hopens : ∀ l ∈ after.head?, Opens l)
    {fields : List HeaderField} (hread : before.foldlM readLine [] = .ok fields) :
    (before ++ after).foldlM readLine [] = (after.foldlM readLine []).map (· ++ fields) := by
  rw [List.foldlM_append, hread]
  exact foldlM_readLine_append hlines hopens fields

/-- A line that says what the transfer encoding is makes one field more. -/
private theorem foldlM_readLine_concat {before : List (List Char)} {fs : List HeaderField}
    (hfs : before.foldlM readLine [] = .ok fs) {line : List Char} {encoding : String}
    (h : SaysEncoding line encoding) (hline : IsHeaderLine line) :
    (before ++ [line]).foldlM readLine [] =
      .ok ({ name := encodingName, value := encoding } :: fs) := by
  rw [List.foldlM_append, hfs]
  show [line].foldlM readLine fs = _
  rw [List.foldlM_cons, h.readLine_eq hline]
  rfl

/-- The lines of a header around the place of the transfer encoding: those in front do not say it,
and those behind start with a field of their own. At the place itself there is nothing yet, or a line
that says it. -/
private theorem exists_place {line : List Char} (hsets : Sets line header header')
    (hlines : ∀ l ∈ header, IsHeaderLine l) {fields : List HeaderField}
    (hfields : header.foldlM readLine [] = .ok fields)
    (hplain : ∀ f ∈ fields, f.name = encodingName → Text.lower f.value ∈ plainEncodings) :
    ∃ before between after fs old, header = before ++ between ++ after ∧
      header' = before ++ [line] ++ after ∧ (∀ l ∈ after.head?, Opens l) ∧
      before.foldlM readLine [] = .ok fs ∧ (∀ f ∈ fs, f.name ≠ encodingName) ∧
      (before ++ between).foldlM readLine [] = .ok (old ++ fs) ∧
      ∀ f ∈ old, f.name = encodingName := by
  have hfront : ∀ {before after : List (List Char)}, Silent (before ++ after) →
      (∀ l ∈ before, IsHeaderLine l) → ∀ {fs : List HeaderField},
        before.foldlM readLine [] = .ok fs → ∀ f ∈ fs, f.name ≠ encodingName :=
    fun hsilent hbefore _ hfs =>
      Silent.name_ne (fun l hl => hsilent l (List.mem_append_left _ hl)) hbefore hfs
  cases hsets with
  | @replaced before after old value hold hsilent =>
    obtain ⟨hbefore, hold', hafter⟩ : (∀ l ∈ before, IsHeaderLine l) ∧ IsHeaderLine old ∧
        ∀ l ∈ after, IsHeaderLine l := by
      simpa only [List.forall_mem_append, List.forall_mem_cons] using hlines
    rw [List.foldlM_append] at hfields
    obtain ⟨fs, hfs, hrest⟩ := bind_eq_ok.1 hfields
    rw [List.foldlM_cons, hold.readLine_eq hold'] at hrest
    refine ⟨before, [old], after, fs, [{ name := encodingName, value }], by simp, by simp, ?_, hfs,
      hfront hsilent hbefore hfs, foldlM_readLine_concat hfs hold hold', by simp⟩
    -- the field that was there is not carried on, for it names a plain encoding
    by_contra hcontinued
    obtain ⟨g, hg, hname, hspace⟩ := exists_field_of_continued hafter hcontinued hrest
    exact not_plain_of_space hspace (hplain g hg hname)
  | @added before after hsilent hopens =>
    have hbefore : ∀ l ∈ before, IsHeaderLine l := fun l hl =>
      hlines l (List.mem_append_left _ hl)
    rw [List.foldlM_append] at hfields
    obtain ⟨fs, hfs, -⟩ := bind_eq_ok.1 hfields
    refine ⟨before, [], after, fs, [], by simp, by simp, hopens, hfs,
      hfront hsilent hbefore hfs, ?_, by simp⟩
    rw [List.append_nil]
    exact hfs

/-- The headers are read alike but for the field of the transfer encoding, which comes in front of
any other of its name. -/
private theorem exists_fields (h : Recoded header header' content content') :
    ∃ fs old later encoding, header.foldlM readLine [] = .ok (later ++ (old ++ fs)) ∧
      header'.foldlM readLine [] =
        .ok (later ++ { name := encodingName, value := encoding } :: fs) ∧
      Text.lower encoding = "base64" ∧ (∀ f ∈ old, f.name = encodingName) ∧
      ∀ f ∈ fs, f.name ≠ encodingName := by
  obtain ⟨p, hread, hplain⟩ := h.plain
  obtain ⟨line, encoding, hline, hsays, hbase64, hsets⟩ := h.base64
  have hlines := h.lines
  rw [read_headed hlines] at hread
  obtain ⟨fields, hfields, hp⟩ := map_eq_ok.1 hread
  have hplain' : ∀ f ∈ fields, f.name = encodingName → Text.lower f.value ∈ plainEncodings := by
    intro f hf
    refine hplain f ?_
    rw [← hp]
    exact List.mem_reverse.2 hf
  obtain ⟨before, between, after, fs, old, rfl, rfl, hopens, hfs, hnone, hset, hold⟩ :=
    exists_place hsets hlines hfields hplain'
  have hafter : ∀ l ∈ after, IsHeaderLine l := fun l hl => hlines l (List.mem_append_right _ hl)
  have hfirst := foldlM_readLine_split hafter hopens hset
  have hsecond := foldlM_readLine_split hafter hopens (foldlM_readLine_concat hfs hsays hline)
  obtain ⟨later, hlater, -⟩ := map_eq_ok.1 (hfirst.symm.trans hfields)
  rw [hlater] at hfirst hsecond
  exact ⟨fs, old, later, encoding, hfirst, hsecond, hbase64, hold, hnone⟩

/-- A field of another name is not touched by what stands between the fields. -/
private theorem find?_between {name : String} (hname : name ≠ encodingName)
    (before after : List HeaderField) {between : List HeaderField}
    (h : ∀ f ∈ between, f.name = encodingName) :
    (before ++ between ++ after).find? (·.name = name) =
      (before ++ after).find? (·.name = name) := by
  have hnone : between.find? (·.name = name) = none := by
    rw [List.find?_eq_none]
    intro f hf
    rw [decide_eq_true_eq, h f hf]
    exact Ne.symm hname
  rw [List.find?_append, List.find?_append, List.find?_append, hnone, Option.or_none]

/-- The lines of the second header are lines of a header. -/
theorem isHeaderLine (h : Recoded header header' content content') :
    ∀ l ∈ header', IsHeaderLine l := by
  obtain ⟨line, encoding, hline, -, -, hsets⟩ := h.base64
  intro l hl
  rcases hsets.eq_or_mem l hl with rfl | hl
  · exact hline
  · exact h.lines l hl

/-- A part in base 64 is read as one that says the same. -/
theorem exists_read (h : Recoded header header' content content') :
    ∃ p p', read (headed header content) = .ok p ∧ read (headed header' content') = .ok p' ∧
      p.Alike p' := by
  obtain ⟨fs, old, later, encoding, hfields, hfields', hbase64, hold, hfs⟩ := h.exists_fields
  let p : Part := { fields := (later ++ (old ++ fs)).reverse, body := content }
  let p' : Part :=
    { fields := (later ++ { name := encodingName, value := encoding } :: fs).reverse
      body := content' }
  have hread : read (headed header content) = .ok p := by
    rw [read_headed h.lines, hfields]
    rfl
  have hread' : read (headed header' content') = .ok p' := by
    rw [read_headed h.isHeaderLine, hfields']
    rfl
  have hsplit : p.fields = fs.reverse ++ old.reverse ++ later.reverse := by simp [p]
  have hsplit' : p'.fields =
      fs.reverse ++ [{ name := encodingName, value := encoding }] ++ later.reverse := by simp [p']
  -- but for the transfer encoding, the two look the same
  have hothers : ∀ name, name ≠ encodingName → p'.field? name = p.field? name := by
    intro name hname
    rw [field?, field?, hsplit, hsplit', find?_between hname _ _ (by simp), find?_between hname]
    intro f hf
    exact hold f (List.mem_reverse.1 hf)
  have hcontent : p.content = .ok content := by
    obtain ⟨q, hq, hplain⟩ := h.plain
    obtain rfl : p = q := Except.ok.inj (hread.symm.trans hq)
    rw [Part.content, ← encodingName]
    cases hfield : p.field? encodingName with
    | none => rfl
    | some value =>
      rw [field?, Option.map_eq_some_iff] at hfield
      obtain ⟨f, hf, rfl⟩ := hfield
      have hname : f.name = encodingName := by simpa using List.find?_some hf
      have hmem := hplain f (List.mem_of_find?_eq_some hf) hname
      exact if_pos hmem
  have hcontent' : p'.content = .ok content := by
    have hfield : p'.field? encodingName = some encoding := by
      have hnone : fs.reverse.find? (·.name = encodingName) = none := by
        rw [List.find?_eq_none]
        intro f hf
        rw [decide_eq_true_eq]
        exact hfs f (List.mem_reverse.1 hf)
      rw [field?, hsplit', List.append_assoc, List.find?_append, hnone]
      rfl
    rw [Part.content, ← encodingName, hfield]
    dsimp only [Option.map_some]
    rw [hbase64, if_neg (by decide), if_pos rfl, h.content, Base64.decode_encode]
    rfl
  refine ⟨p, p', hread, hread', ⟨?_, hothers _ (by decide), hcontent'.trans hcontent.symm⟩⟩
  rw [contentId?, contentId?, hothers _ (by decide)]

/-- There is no boundary line in a part in base 64, if there was none in it before. -/
theorem whole (h : Recoded header header' content content') {d : Bytes}
    (hwhole : Framing.Whole (45 :: d) (headed header content)) :
    Framing.Whole (45 :: d) (headed header' content') := by
  obtain ⟨line, encoding, -, hsays, -, hsets⟩ := h.base64
  have hheader := isPrefixOf_of_whole_headed (fun l hl => (h.lines l hl).unbroken) hwhole
  -- a boundary line starts with a hyphen, and none stands among the symbols and the blanks
  have hcontent : Framing.Whole (45 :: d) content' := by
    refine Framing.whole_of_not_occurs ?_
    rintro ⟨before, after, hbytes⟩
    have hmem : 45 ∈ content' := by
      rw [← hbytes]
      simp
    have hsymbol : 45 ∈ content'.filter (!Text.isAsciiBlank ·) :=
      List.mem_filter.2 ⟨hmem, by decide⟩
    rw [h.content] at hsymbol
    exact Base64.hyphen_not_mem_encode content hsymbol
  refine whole_headed (by decide) (fun l hl => ⟨(h.isHeaderLine l hl).unbroken, ?_⟩) hcontent
  rcases hsets.eq_or_mem l hl with rfl | hl
  · obtain ⟨c, cs, rfl, hc⟩ := hsays.exists_cons
    exact isPrefixOf_line_eq_false (by decide) (Ne.symm hc) d cs _
  · exact hheader l hl

end Recoded

end SoapMtom.Mime.Part
