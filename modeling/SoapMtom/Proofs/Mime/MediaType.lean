import Mathlib.Data.Bool.AllAny
import Mathlib.Data.List.Basic
import SoapMtom.Mime.MediaType
import SoapMtom.Proofs.Text.Cut

/-!
# Media types are read back

A media type whose parameters are written in quotes, with backslashes before quotes and backslashes,
is read as it was, whatever the values are. Whether it is a type with parts shows at its beginning.
Main statements:

> `MediaType.parse_written` and `MediaType.isMultipart_parse_iff`.
-/

namespace SoapMtom.Mime.MediaType

/-- Characters as they are written in quotes. -/
def escapeQuoted (cs : List Char) : List Char :=
  cs.flatMap fun c => if c = '\x22' ∨ c = '\\' then ['\\', c] else [c]

/-- A parameter as it is written after a semicolon. -/
def segmentOf (p : String × String) : List Char :=
  ' ' :: p.1.toList ++ '=' :: '\x22' :: escapeQuoted p.2.toList ++ ['\x22']

/-- The media type as it is written, its parameters in quotes. -/
def written (m : MediaType) : String :=
  m.essence ++ String.ofList (m.parameters.flatMap fun p => ';' :: segmentOf p)

/-- A media type that can be written: nothing outside quotes could be taken for something else. -/
structure Writable (m : MediaType) : Prop where
  essence_plain : ∀ c ∈ m.essence.toList, c ≠ ';' ∧ c ≠ '\x22'
  name_plain : ∀ p ∈ m.parameters, ∀ c ∈ p.1.toList, c ≠ ';' ∧ c ≠ '\x22' ∧ c ≠ '='
  name_lower : ∀ p ∈ m.parameters, Text.lower (Text.trim p.1) = p.1

instance (m : MediaType) : Decidable m.Writable :=
  have := List.decidableBAll (fun c : Char => c ≠ ';' ∧ c ≠ '\x22') m.essence.toList
  have (p : String × String) :=
    List.decidableBAll (fun c : Char => c ≠ ';' ∧ c ≠ '\x22' ∧ c ≠ '=') p.1.toList
  decidable_of_iff (_ ∧ _ ∧ _) ⟨fun ⟨h₁, h₂, h₃⟩ => ⟨h₁, h₂, h₃⟩, fun ⟨h₁, h₂, h₃⟩ => ⟨h₁, h₂, h₃⟩⟩

/-- Characters that mean nothing in quotes are written as they are. -/
theorem escapeQuoted_of_plain {cs : List Char} (h : ∀ c ∈ cs, c ≠ '\x22' ∧ c ≠ '\\') :
    escapeQuoted cs = cs := by
  induction cs with
  | nil => rfl
  | cons c cs ih =>
    rw [List.forall_mem_cons] at h
    rw [escapeQuoted, List.flatMap_cons, if_neg (not_or.2 h.1)]
    exact congrArg (c :: ·) (ih h.2)

theorem escapeQuoted_cons (c : Char) (cs : List Char) :
    escapeQuoted (c :: cs) =
      (if c = '\x22' ∨ c = '\\' then ['\\', c] else [c]) ++ escapeQuoted cs :=
  List.flatMap_cons

theorem escapeQuoted_append (cs ds : List Char) :
    escapeQuoted (cs ++ ds) = escapeQuoted cs ++ escapeQuoted ds :=
  List.flatMap_append

/-! ## Segments -/

/-- Outside quotes a segment goes on up to a semicolon or a quote. -/
theorem segmentsFrom_plain {cs : List Char} (h : ∀ c ∈ cs, c ≠ ';' ∧ c ≠ '\x22')
    (current rest : List Char) :
    segmentsFrom .outside current (cs ++ rest) =
      segmentsFrom .outside (cs.reverse ++ current) rest := by
  induction cs generalizing current with
  | nil => rfl
  | cons c cs ih =>
    obtain ⟨hsemicolon, hquote⟩ := h c (List.mem_cons_self ..)
    rw [List.cons_append, segmentsFrom, if_neg (by simp [hsemicolon]), QuoteState.next,
      if_neg hquote, ih fun d hd => h d (List.mem_cons_of_mem _ hd)]
    simp

/-- Inside quotes a segment goes on up to the closing quote. -/
theorem segmentsFrom_quoted (cs current rest : List Char) :
    segmentsFrom .quoted current (escapeQuoted cs ++ '\x22' :: rest) =
      segmentsFrom .outside ('\x22' :: (escapeQuoted cs).reverse ++ current) rest := by
  induction cs generalizing current with
  | nil =>
    show segmentsFrom .quoted current ('\x22' :: rest) = segmentsFrom .outside ('\x22' :: current) rest
    rw [segmentsFrom, if_neg (by simp), QuoteState.next, if_neg (by decide), if_pos rfl]
  | cons c cs ih =>
    rw [escapeQuoted_cons]
    split
    · -- the backslash takes the character after it as it is
      rw [List.append_assoc, List.cons_append, List.cons_append, List.nil_append, segmentsFrom,
        if_neg (by simp), QuoteState.next, if_pos rfl, segmentsFrom, if_neg (by simp)]
      show segmentsFrom .quoted _ _ = _
      rw [ih]
      simp
    · next h =>
      rw [not_or] at h
      rw [List.append_assoc, List.cons_append, List.nil_append, segmentsFrom, if_neg (by simp),
        QuoteState.next, if_neg h.2, if_neg h.1, ih]
      simp

/-- A segment that is passed as a whole: no semicolon stands outside quotes, and each quote is
closed. -/
def IsSegment (segment : List Char) : Prop :=
  ∀ rest, segmentsFrom .outside [] (segment ++ rest) = segmentsFrom .outside segment.reverse rest

theorem isSegment_of_plain {segment : List Char} (h : ∀ c ∈ segment, c ≠ ';' ∧ c ≠ '\x22') :
    IsSegment segment := by
  intro rest
  rw [segmentsFrom_plain h, List.append_nil]

theorem isSegment_segmentOf {p : String × String}
    (hname : ∀ c ∈ p.1.toList, c ≠ ';' ∧ c ≠ '\x22' ∧ c ≠ '=') : IsSegment (segmentOf p) := by
  intro rest
  have hfront : ∀ c ∈ ' ' :: p.1.toList ++ ['='], c ≠ ';' ∧ c ≠ '\x22' := by
    intro c hc
    rw [List.cons_append, List.mem_cons, List.mem_append, List.mem_singleton] at hc
    rcases hc with rfl | hc | rfl
    · decide
    · exact ⟨(hname c hc).1, (hname c hc).2.1⟩
    · decide
  have hsplit : segmentOf p ++ rest =
      (' ' :: p.1.toList ++ ['=']) ++ '\x22' :: (escapeQuoted p.2.toList ++ '\x22' :: rest) := by
    simp [segmentOf]
  have hreverse : (segmentOf p).reverse =
      '\x22' :: (escapeQuoted p.2.toList).reverse ++
        '\x22' :: ((' ' :: p.1.toList ++ ['=']).reverse ++ []) := by
    simp [segmentOf]
  rw [hsplit, segmentsFrom_plain hfront, segmentsFrom, if_neg (by simp), QuoteState.next,
    if_pos rfl, segmentsFrom_quoted, hreverse]

/-- Segments after semicolons are found again, after the piece that comes first. -/
private theorem segmentsFrom_segments {segments : List (List Char)}
    (h : ∀ s ∈ segments, IsSegment s) (current : List Char) :
    segmentsFrom .outside current (segments.flatMap (';' :: ·)) = current.reverse :: segments := by
  induction segments generalizing current with
  | nil => rfl
  | cons segment segments ih =>
    rw [List.forall_mem_cons] at h
    rw [List.flatMap_cons, List.cons_append, segmentsFrom, if_pos (by simp), h.1, ih h.2,
      List.reverse_reverse]

/-- A media type is read as its essence and the parameters that its segments write. -/
theorem parse_segments {essence : String} (hplain : ∀ c ∈ essence.toList, c ≠ ';' ∧ c ≠ '\x22')
    {segments : List (List Char)} (h : ∀ s ∈ segments, IsSegment s) :
    parse (essence ++ String.ofList (segments.flatMap (';' :: ·))) =
      { essence := Text.lower (Text.trim essence)
        parameters := segments.filterMap parameterOf? } := by
  rw [parse, String.toList_append, String.toList_ofList, segmentsFrom_plain hplain,
    segmentsFrom_segments h, List.append_nil, List.reverse_reverse]
  rfl

/-! ## Parameters -/

/-- What was escaped is read as it was. -/
theorem unescape_escapeQuoted (cs : List Char) : unescape (escapeQuoted cs) = cs := by
  induction cs with
  | nil => rfl
  | cons c cs ih =>
    rw [escapeQuoted_cons]
    split
    · show c :: unescape (escapeQuoted cs) = c :: cs
      rw [ih]
    · next h =>
      rw [not_or] at h
      rw [List.cons_append, List.nil_append, unescape, ih]
      · intro d rest hc _
        exact h.2 hc
      · intro hc _
        exact h.2 hc

/-- A segment with an equals sign after its name is a parameter. -/
theorem parameterOf?_named {name : String} (hname : '=' ∉ name.toList)
    (hlower : Text.lower (Text.trim name) = name) (value : List Char) :
    parameterOf? (' ' :: name.toList ++ '=' :: value) =
      some (name, String.ofList (unquote (Text.trimChars value))) := by
  have hcut : '=' ∉ ' ' :: name.toList := by
    rw [List.mem_cons, not_or]
    exact ⟨by decide, hname⟩
  rw [parameterOf?, Text.cutAt?_append hcut, Option.map_some]
  dsimp only
  rw [Text.trimChars_cons Text.isBlank_space]
  exact congrArg (fun name => some (name, _)) hlower

/-- A segment is read as the parameter it writes. -/
theorem parameterOf?_segmentOf {p : String × String}
    (hname : ∀ c ∈ p.1.toList, c ≠ ';' ∧ c ≠ '\x22' ∧ c ≠ '=')
    (hlower : Text.lower (Text.trim p.1) = p.1) : parameterOf? (segmentOf p) = some p := by
  generalize hvalue : escapeQuoted p.2.toList = value
  have hquote : Text.isBlank '\x22' = false := by decide
  have htrim : Text.trimChars ('\x22' :: value ++ ['\x22']) = '\x22' :: (value ++ ['\x22']) := by
    refine Text.trimChars_of_ends (fun c hc => ?_) fun c hc => ?_
    · obtain rfl := Option.some.inj hc
      exact hquote
    · rw [List.getLast?_concat] at hc
      obtain rfl := Option.some.inj hc
      exact hquote
  have hunquote : unquote ('\x22' :: (value ++ ['\x22'])) = p.2.toList := by
    show (if (value ++ ['\x22']).getLast? = some '\x22' then
      unescape (value ++ ['\x22']).dropLast else _) = _
    rw [if_pos List.getLast?_concat, List.dropLast_concat, ← hvalue, unescape_escapeQuoted]
  have hsegment : segmentOf p = ' ' :: p.1.toList ++ '=' :: ('\x22' :: value ++ ['\x22']) := by
    simp [segmentOf, hvalue]
  rw [hsegment, parameterOf?_named (fun hmem => (hname _ hmem).2.2 rfl) hlower, htrim, hunquote,
    String.ofList_toList]

/-- A media type that was written is read as it was, its essence trimmed and in lower case. -/
theorem parse_written {m : MediaType} (h : m.Writable) :
    parse m.written = { m with essence := Text.lower (Text.trim m.essence) } := by
  obtain ⟨hplain, hname, hlower⟩ := h
  have hsegments : ∀ s ∈ m.parameters.map segmentOf, IsSegment s := by
    rw [List.forall_mem_map]
    exact fun p hp => isSegment_segmentOf (hname p hp)
  have hparameters : (m.parameters.map segmentOf).filterMap parameterOf? = m.parameters := by
    rw [List.filterMap_map, List.filterMap_congr (g := some), List.filterMap_some]
    intro p hp
    exact parameterOf?_segmentOf (hname p hp) (hlower p hp)
  have hread := parse_segments hplain hsegments
  rw [List.flatMap_map, hparameters] at hread
  exact hread

theorem parameter?_parse_written {m : MediaType} (h : m.Writable) (name : String) :
    (parse m.written).parameter? name = m.parameter? name := by
  rw [parameter?, parse_written h, parameter?]

/-! ## Types with parts -/

/-- The content type of a message in parts: after blanks, if any, it begins with `multipart/`, in
capitals or not. -/
def NamesParts (s : String) : Prop :=
  "multipart/".toList <+: (s.toList.dropWhile Text.isBlank).map Text.lowerChar

instance (s : String) : Decidable (NamesParts s) :=
  inferInstanceAs (Decidable (_ <+: _))

/-- The first segment goes up to a semicolon, or to the end. -/
theorem segmentsFrom_eq_cons (state : QuoteState) (current cs : List Char) :
    ∃ front rest segments, segmentsFrom state current cs = (current.reverse ++ front) :: segments ∧
      cs = front ++ rest ∧ ∀ c ∈ rest.head?, c = ';' := by
  induction cs generalizing state current with
  | nil => exact ⟨[], [], [], by simp [segmentsFrom], rfl, by simp⟩
  | cons c cs ih =>
    rw [segmentsFrom]
    split
    · next h =>
      rw [Bool.and_eq_true, decide_eq_true_eq] at h
      exact ⟨[], c :: cs, _, by rw [List.append_nil], rfl, by simp [h.1]⟩
    · obtain ⟨front, rest, segments, hsegments, rfl, hrest⟩ := ih (state.next c) (c :: current)
      exact ⟨c :: front, rest, segments, by rw [hsegments]; simp, rfl, hrest⟩

/-- Parameters do not tell whether a content type is one of a message in parts. -/
theorem isMultipart_parse_iff (s : String) : (parse s).isMultipart = true ↔ NamesParts s := by
  obtain ⟨front, rest, segments, hsegments, hchars, hrest⟩ :=
    segmentsFrom_eq_cons .outside [] s.toList
  obtain ⟨dropped, hblank, hfront⟩ :=
    Text.exists_eq_dropEndWhile_append Text.isBlank (front.dropWhile Text.isBlank)
  have hkept : rest.dropWhile Text.isBlank = rest :=
    Text.dropWhile_of_head fun c hc => by rw [hrest c hc]; decide
  have hwhole : s.toList.dropWhile Text.isBlank = Text.trimChars front ++ (dropped ++ rest) := by
    rw [hchars, List.dropWhile_append, hkept, Text.trimChars, ← List.append_assoc, ← hfront]
    split
    · next hempty => rw [List.isEmpty_iff.1 hempty, List.nil_append]
    · rfl
  -- what was cut off begins with a blank or a semicolon, and neither is in the name of the type
  have hcut : ∀ c ∈ ((dropped ++ rest).map Text.lowerChar).head?, c ∉ "multipart/".toList := by
    have hname : ∀ c ∈ "multipart/".toList, Text.isBlank c = false ∧ c ≠ ';' := by
      simp only [← List.all_iff_forall_prop]
      decide
    intro c hc hmem
    cases dropped with
    | nil =>
      rw [List.nil_append, List.head?_map] at hc
      obtain ⟨d, hd, rfl⟩ := Option.map_eq_some_iff.1 hc
      rw [hrest d hd] at hmem
      exact (hname _ hmem).2 (by decide)
    | cons d dropped =>
      obtain rfl : Text.lowerChar d = c := Option.some.inj hc
      have hd := hblank d (List.mem_cons_self ..)
      rw [Text.lowerChar_of_isBlank hd] at hmem
      rw [(hname d hmem).1] at hd
      cases hd
  have hessence : (parse s).essence.toList = (Text.trimChars front).map Text.lowerChar := by
    rw [parse, hsegments]
    dsimp only
    rw [Text.lower, String.toList_ofList, String.toList_ofList]
    rfl
  rw [isMultipart, List.isPrefixOf_iff_prefix, hessence, NamesParts, hwhole, List.map_append,
    Text.isPrefix_append_iff hcut]

end SoapMtom.Mime.MediaType
