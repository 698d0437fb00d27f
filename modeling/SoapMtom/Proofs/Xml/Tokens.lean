import SoapMtom.Proofs.Occurrence
import SoapMtom.Proofs.Xml.TagContent
import SoapMtom.Xml.Token

/-!
# The tokens of written markup

Each piece of markup is one token again, with one exception: texts that touch are read as one, and
a text without characters is not read at all. `Markup.joinTexts` brings pieces into the form in
which they are read. Main statement:

> `tokens?_bytesOf`: the bytes of markup are cut into the tokens of its pieces, texts joined.
-/

namespace SoapMtom.Xml

namespace Token

/-- The tokens of bytes that can be cut to their end. -/
def tokens? (bs : Bytes) : Option (List Token) :=
  match (scan bs).failure with
  | none => some ((scan bs).tokens.map Prod.fst)
  | some _ => none

@[simp] theorem tokens?_nil : tokens? [] = some [] := by
  rw [tokens?, scan]
  rfl

theorem scan_of_cut {b : UInt8} {after rest : Bytes} {t : Token}
    (h : cut b after = .token t rest) : scan (b :: after) = .cons (t, rest) (scan rest) := by
  rw [scan]
  split
  · next h' =>
    rw [h] at h'
    obtain ⟨rfl, rfl⟩ := Cut.token.inj h'
    rfl
  · next h' =>
    rw [h] at h'
    cases h'

theorem tokens?_of_cut {b : UInt8} {after rest : Bytes} {t : Token}
    (h : cut b after = .token t rest) : tokens? (b :: after) = (tokens? rest).map (t :: ·) := by
  rw [tokens?, tokens?, scan_of_cut h]
  cases hf : (scan rest).failure with
  | none => simp [Scanned.cons, hf]
  | some f => simp [Scanned.cons, hf]

/-- What starts with none of the bytes that open other markup is a tag. -/
theorem cutMarkup_of_tag {b : UInt8} (hbang : b ≠ 33) (hslash : b ≠ 47) (hmark : b ≠ 63)
    {bs tag rest : Bytes} (h : breakTag none [] (b :: bs) = some (tag, rest)) :
    cutMarkup (b :: bs) =
      if tag.getLast? = some 47 then .token (.empty tag.dropLast) rest
      else .token (.start tag) rest := by
  rw [cutMarkup.eq_def]
  split
  · next heq => cases heq
  · next heq => exact absurd (List.cons.inj heq).1 hbang
  · next heq => exact absurd (List.cons.inj heq).1 hslash
  · next heq => exact absurd (List.cons.inj heq).1 hmark
  · next heq => exact absurd (List.cons.inj heq).1 hmark
  · rw [h]

/-- What starts with a question mark is an instruction. -/
theorem cutMarkup_of_mark {bs content rest : Bytes} (hhead : bs.head? ≠ some 62)
    (h : Bytes.breakOn (Utf8.encode "?>") bs = some (content, rest)) :
    cutMarkup (63 :: bs) = .token (.instruction content) rest := by
  rw [cutMarkup.eq_def]
  split
  · next heq => cases heq
  · next heq => exact absurd (List.cons.inj heq).1 (by decide)
  · next heq => exact absurd (List.cons.inj heq).1 (by decide)
  · next heq =>
    rw [(List.cons.inj heq).2] at hhead
    exact absurd rfl hhead
  · next heq =>
    obtain rfl := (List.cons.inj heq).2
    rw [h]
  · next hnot => exact absurd rfl (hnot bs)

end Token

namespace Markup

/-- A piece whose names can be read back. -/
def Legible : Markup → Prop
  | .declaration => True
  | .start name attributes => IsKey name ∧ ∀ a ∈ attributes, IsKey a.1
  | .empty name attributes => IsKey name ∧ ∀ a ∈ attributes, IsKey a.1
  | .stop name => IsKey name
  | .text _ => True

/-- The bytes of a piece. -/
def bytes (m : Markup) : Bytes := Utf8.encodeChars m.render

/-- The bytes of pieces. -/
def bytesOf (ms : List Markup) : Bytes := ms.flatMap bytes

theorem encode_renderAll (ms : List Markup) : Utf8.encode (renderAll ms) = bytesOf ms := by
  rw [renderAll, Utf8.encode_ofList, Utf8.encodeChars_flatMap]
  rfl

/-- The token that a piece is read as. -/
def token : Markup → Token
  | .declaration => .instruction (Utf8.encode "xml version=\"1.0\" encoding=\"UTF-8\"")
  | .start name attributes => .start (tagBytes name attributes)
  | .empty name attributes => .empty (tagBytes name attributes)
  | .stop name => .stop (Utf8.encode name)
  | .text content => .text (Utf8.encode (escape content))

/-! ## Joining texts -/

/-- A text in front of pieces, one with the text that they start with. -/
def consText (s : String) : List Markup → List Markup
  | .text t :: rest => .text (s ++ t) :: rest
  | ms => if s = "" then ms else .text s :: ms

/-- The pieces with every run of texts as one text, and without texts that are empty. -/
def joinTexts : List Markup → List Markup
  | [] => []
  | .text s :: rest => consText s (joinTexts rest)
  | m :: rest => m :: joinTexts rest

/-- No text is empty, and none follows another. -/
def Separated : List Markup → Prop
  | [] => True
  | .text s :: rest => s ≠ "" ∧ (∀ t, rest.head? ≠ some (.text t)) ∧ Separated rest
  | _ :: rest => Separated rest

end Markup

theorem escape_append (s t : String) : escape (s ++ t) = escape s ++ escape t := by
  simp [escape, String.toList_append, String.ofList_append]

/-- Different texts are escaped differently. -/
theorem escape_injective {s t : String} (h : escape s = escape t) : s = t := by
  have hs := resolve_escape s
  rw [h, resolve_escape] at hs
  exact (Except.ok.inj hs).symm

namespace Markup

theorem bytes_text (s : String) : bytes (.text s) = Utf8.encode (escape s) := rfl

theorem bytesOf_cons (m : Markup) (ms : List Markup) : bytesOf (m :: ms) = bytes m ++ bytesOf ms :=
  List.flatMap_cons

theorem bytesOf_consText (s : String) (ms : List Markup) :
    bytesOf (consText s ms) = bytes (.text s) ++ bytesOf ms := by
  unfold consText
  split
  · rw [bytesOf_cons, bytesOf_cons, bytes_text, bytes_text, bytes_text, escape_append,
      Utf8.encode_append, List.append_assoc]
  · split
    · next h =>
      rw [h, bytes_text, show Utf8.encode (escape "") = [] from Utf8.encode_eq_nil.2 rfl,
        List.nil_append]
    · exact bytesOf_cons _ _

theorem bytesOf_joinTexts (ms : List Markup) : bytesOf (joinTexts ms) = bytesOf ms := by
  induction ms with
  | nil => rfl
  | cons m ms ih =>
    cases m with
    | text s => rw [joinTexts, bytesOf_consText, ih, bytesOf_cons]
    | declaration | start | empty | stop => exact congrArg (bytes _ ++ ·) ih

theorem separated_consText {s : String} {ms : List Markup} (h : Separated ms) :
    Separated (consText s ms) := by
  unfold consText
  split
  · next t rest =>
    obtain ⟨hne, hhead, hrest⟩ := h
    refine ⟨fun he => hne ?_, hhead, hrest⟩
    have := congrArg String.toList he
    rw [String.toList_append] at this
    exact String.toList_inj.1 (List.append_eq_nil_iff.1 this).2
  · next hms =>
    split
    · exact h
    · next hne =>
      refine ⟨hne, fun t ht => ?_, h⟩
      cases ms with
      | nil => simp at ht
      | cons m rest =>
        rw [List.head?_cons, Option.some.injEq] at ht
        exact hms t rest (by rw [ht])

theorem separated_joinTexts (ms : List Markup) : Separated (joinTexts ms) := by
  induction ms with
  | nil => trivial
  | cons m ms ih =>
    cases m with
    | text s => exact separated_consText ih
    | declaration | start | empty | stop => exact ih

theorem declaration_mem_joinTexts {ms : List Markup} (h : .declaration ∈ joinTexts ms) :
    .declaration ∈ ms := by
  induction ms with
  | nil => exact h
  | cons m ms ih =>
    cases m with
    | text s =>
      rw [joinTexts, consText.eq_def] at h
      refine List.mem_cons_of_mem _ (ih ?_)
      split at h
      · next t rest hms =>
        rw [hms]
        rcases List.mem_cons.1 h with h | h
        · cases h
        · exact List.mem_cons_of_mem _ h
      · split at h
        · exact h
        · rcases List.mem_cons.1 h with h | h
          · cases h
          · exact h
    | declaration | start | empty | stop =>
      rcases List.mem_cons.1 h with h | h
      · rw [h]
        exact List.mem_cons_self ..
      · exact List.mem_cons_of_mem _ (ih h)

theorem legible_consText {s : String} {ms : List Markup} (h : ∀ m ∈ ms, Legible m) :
    ∀ m ∈ consText s ms, Legible m := by
  intro m hm
  unfold consText at hm
  split at hm
  · rcases List.mem_cons.1 hm with rfl | hm
    · trivial
    · exact h m (List.mem_cons_of_mem _ hm)
  · split at hm
    · exact h m hm
    · rcases List.mem_cons.1 hm with rfl | hm
      · trivial
      · exact h m hm

theorem legible_joinTexts {ms : List Markup} (h : ∀ m ∈ ms, Legible m) :
    ∀ m ∈ joinTexts ms, Legible m := by
  induction ms with
  | nil => exact h
  | cons m ms ih =>
    have hms := ih fun n hn => h n (List.mem_cons_of_mem _ hn)
    cases m with
    | text s => exact legible_consText hms
    | declaration | start | empty | stop =>
      intro n hn
      rcases List.mem_cons.1 hn with rfl | hn
      · exact h _ (List.mem_cons_self ..)
      · exact hms n hn

/-! ## Cutting pieces off -/

theorem bytes_start (name : String) (attributes : List (String × String)) :
    bytes (.start name attributes) = 60 :: (tagBytes name attributes ++ [62]) := by
  show Utf8.encodeChars ('<' :: (name.toList ++ attributes.flatMap renderAttribute) ++ ['>']) = _
  rw [List.cons_append, Utf8.encodeChars_cons, Utf8.encodeChars_append,
    encodeChars_renderAttributes]
  simp [String.utf8EncodeChar]

theorem bytes_empty (name : String) (attributes : List (String × String)) :
    bytes (.empty name attributes) = 60 :: (tagBytes name attributes ++ [47, 62]) := by
  show Utf8.encodeChars
    ('<' :: (name.toList ++ attributes.flatMap renderAttribute) ++ ['/', '>']) = _
  rw [List.cons_append, Utf8.encodeChars_cons, Utf8.encodeChars_append,
    encodeChars_renderAttributes]
  simp [String.utf8EncodeChar]

theorem bytes_stop (name : String) :
    bytes (.stop name) = 60 :: 47 :: (Utf8.encode name ++ [62]) := by
  show Utf8.encodeChars ('<' :: '/' :: name.toList ++ ['>']) = _
  simp [String.utf8EncodeChar, Utf8.encode_eq_encodeChars]

/-- What follows the `<` of a tag that is no end tag is read as a tag. -/
private theorem cutMarkup_tagBytes {name : String} {attributes : List (String × String)}
    {tail : Bytes} (hname : IsKey name) (h : ∀ a ∈ attributes, IsKey a.1)
    (htail : ∀ b ∈ tail, b ≠ 62 ∧ b ≠ 34 ∧ b ≠ 39) (rest : Bytes) :
    Token.cutMarkup (tagBytes name attributes ++ (tail ++ 62 :: rest)) =
      if (tagBytes name attributes ++ tail).getLast? = some 47 then
        .token (.empty (tagBytes name attributes ++ tail).dropLast) rest
      else .token (.start (tagBytes name attributes ++ tail)) rest := by
  obtain ⟨first, after, hfirst⟩ := List.exists_cons_of_ne_nil
    (fun h => hname.1 (Utf8.encode_eq_nil.1 h))
  have hne := ne_of_mem_key hname (hfirst ▸ List.mem_cons_self ..)
  have hbytes : tagBytes name attributes ++ (tail ++ 62 :: rest) =
      first :: (after ++ (attributes.flatMap attributeBytes ++ (tail ++ 62 :: rest))) := by
    rw [tagBytes, hfirst, List.append_assoc]
    rfl
  have hbreak := Token.breakTag_tagBytes hname h htail rest
  rw [hbytes] at hbreak ⊢
  exact Token.cutMarkup_of_tag hne.2.2.2.2.2.2.1 hne.2.2.2.2.2.1 hne.2.2.2.2.2.2.2.1 hbreak

/-- The last byte of a tag is no slash. -/
private theorem getLast?_tagBytes {name : String} (hname : IsKey name)
    (attributes : List (String × String)) : (tagBytes name attributes).getLast? ≠ some 47 := by
  rcases List.eq_nil_or_concat attributes with rfl | ⟨front, last, rfl⟩
  · intro h
    have hmem : (47 : UInt8) ∈ Utf8.encode name := by
      simpa [tagBytes] using List.mem_of_getLast? h
    exact (ne_of_mem_key hname hmem).2.2.2.2.2.1 rfl
  · rw [tagBytes, List.concat_eq_append, List.flatMap_append, List.flatMap_singleton,
      attributeBytes, ← List.append_assoc, ← List.append_assoc, List.getLast?_concat]
    decide

theorem tokens?_start {name : String} {attributes : List (String × String)}
    (h : Legible (.start name attributes)) (rest : Bytes) :
    Token.tokens? (bytes (.start name attributes) ++ rest) =
      (Token.tokens? rest).map (token (.start name attributes) :: ·) := by
  rw [bytes_start, List.cons_append, List.append_assoc]
  refine Token.tokens?_of_cut ?_
  have hcut := cutMarkup_tagBytes h.1 h.2 (List.forall_mem_nil _) rest
  rw [List.append_nil, if_neg (getLast?_tagBytes h.1 attributes)] at hcut
  exact hcut

theorem tokens?_empty {name : String} {attributes : List (String × String)}
    (h : Legible (.empty name attributes)) (rest : Bytes) :
    Token.tokens? (bytes (.empty name attributes) ++ rest) =
      (Token.tokens? rest).map (token (.empty name attributes) :: ·) := by
  rw [bytes_empty, List.cons_append, List.append_assoc]
  refine Token.tokens?_of_cut ?_
  have hslash : ∀ b ∈ [(47 : UInt8)], b ≠ 62 ∧ b ≠ 34 ∧ b ≠ 39 := by
    rw [List.forall_mem_singleton]
    decide
  have hcut := cutMarkup_tagBytes h.1 h.2 hslash rest
  rw [List.getLast?_concat, if_pos rfl, List.dropLast_concat] at hcut
  exact hcut

theorem tokens?_stop {name : String} (h : Legible (.stop name)) (rest : Bytes) :
    Token.tokens? (bytes (.stop name) ++ rest) =
      (Token.tokens? rest).map (token (.stop name) :: ·) := by
  rw [bytes_stop, List.cons_append, List.cons_append, List.append_assoc]
  refine Token.tokens?_of_cut ?_
  have hbreak := Token.breakTag_tagBytes h (List.forall_mem_nil _) (List.forall_mem_nil _) rest
  have hname : tagBytes name [] = Utf8.encode name := by simp [tagBytes]
  rw [hname, List.append_nil] at hbreak
  show Token.cutMarkup (47 :: (Utf8.encode name ++ ([62] ++ rest))) = _
  rw [Token.cutMarkup]
  have hbreak' : Token.breakTag none [] (Utf8.encode name ++ ([62] ++ rest)) =
      some (Utf8.encode name, rest) := hbreak
  rw [hbreak']
  rfl

private theorem bytes_declaration :
    bytes .declaration =
      60 :: 63 :: (Utf8.encode "xml version=\"1.0\" encoding=\"UTF-8\"" ++ [63, 62]) := by
  decide

theorem tokens?_declaration (rest : Bytes) :
    Token.tokens? (bytes .declaration ++ rest) =
      (Token.tokens? rest).map (token .declaration :: ·) := by
  have hhead : (Utf8.encode "xml version=\"1.0\" encoding=\"UTF-8\"").head? = some 120 := by
    decide
  have hmark : 63 ∉ Utf8.encode "xml version=\"1.0\" encoding=\"UTF-8\"" := by
    decide
  have hpattern : Utf8.encode "?>" = [63, 62] := by decide
  -- the first question mark is the one that ends it
  have hbreak : Bytes.breakOn [63, 62]
      (Utf8.encode "xml version=\"1.0\" encoding=\"UTF-8\"" ++ ([63, 62] ++ rest)) =
        some (Utf8.encode "xml version=\"1.0\" encoding=\"UTF-8\"", rest) :=
    Bytes.breakOn_append hmark rest
  rw [← hpattern] at hbreak
  rw [bytes_declaration, token, List.cons_append, List.cons_append, List.append_assoc, ← hpattern]
  refine Token.tokens?_of_cut ?_
  rw [Token.cut, if_pos rfl]
  refine Token.cutMarkup_of_mark ?_ hbreak
  rw [List.head?_append, hhead, Option.some_or]
  decide

/-- A text goes on to the next tag. -/
theorem tokens?_text {s : String} (hs : s ≠ "") {rest : Bytes}
    (hrest : rest = [] ∨ ∃ more, rest = 60 :: more) :
    Token.tokens? (bytes (.text s) ++ rest) =
      (Token.tokens? rest).map (token (.text s) :: ·) := by
  have hne : Utf8.encode (escape s) ≠ [] := by
    intro h
    exact hs (escape_injective (Utf8.encode_eq_nil.1 h))
  obtain ⟨first, after, hfirst⟩ := List.exists_cons_of_ne_nil hne
  have hmem : ∀ b ∈ first :: after, b ≠ 60 := fun b hb =>
    (ne_of_mem_encode_escape (hfirst ▸ hb)).1
  have hafter : ∀ b ∈ after, (b != 60) = true := fun b hb =>
    bne_iff_ne.2 (hmem b (List.mem_cons_of_mem _ hb))
  rw [bytes_text, hfirst, List.cons_append]
  refine Token.tokens?_of_cut ?_
  rw [Token.cut, if_neg (hmem first (List.mem_cons_self ..)), token, hfirst,
    List.takeWhile_append_of_pos hafter, List.dropWhile_append_of_pos hafter]
  -- the text ends where the document does or at the next tag
  rcases hrest with rfl | ⟨more, rfl⟩
  · simp
  · simp

/-! ## Whole documents -/

/-- After a text that is not followed by another comes a tag or the end. -/
private theorem bytesOf_eq_nil_or_tag {ms : List Markup} (h : ∀ t, ms.head? ≠ some (.text t)) :
    bytesOf ms = [] ∨ ∃ more, bytesOf ms = 60 :: more := by
  cases ms with
  | nil => exact .inl rfl
  | cons m ms =>
    rw [bytesOf_cons]
    cases m with
    | text s => exact absurd rfl (h s)
    | declaration => exact .inr ⟨_, by rw [bytes_declaration]; rfl⟩
    | start name attributes => exact .inr ⟨_, by rw [bytes_start]; rfl⟩
    | empty name attributes => exact .inr ⟨_, by rw [bytes_empty]; rfl⟩
    | stop name => exact .inr ⟨_, by rw [bytes_stop]; rfl⟩

/-- Pieces without texts to join are read one by one. -/
private theorem tokens?_of_separated {ms : List Markup} (hs : Separated ms)
    (h : ∀ m ∈ ms, Legible m) : Token.tokens? (bytesOf ms) = some (ms.map token) := by
  induction ms with
  | nil => exact Token.tokens?_nil
  | cons m ms ih =>
    have hm := h m (List.mem_cons_self ..)
    have hrest := fun n hn => h n (List.mem_cons_of_mem _ hn)
    rw [bytesOf_cons]
    cases m with
    | declaration => rw [tokens?_declaration, ih hs hrest]; rfl
    | start name attributes => rw [tokens?_start hm, ih hs hrest]; rfl
    | empty name attributes => rw [tokens?_empty hm, ih hs hrest]; rfl
    | stop name => rw [tokens?_stop hm, ih hs hrest]; rfl
    | text s =>
      obtain ⟨hne, hhead, hs⟩ := hs
      rw [tokens?_text hne (bytesOf_eq_nil_or_tag hhead), ih hs hrest]
      rfl

/-- The bytes of markup are cut into the tokens of its pieces, texts joined. -/
theorem tokens?_bytesOf {ms : List Markup} (h : ∀ m ∈ ms, Legible m) :
    Token.tokens? (bytesOf ms) = some ((joinTexts ms).map token) := by
  rw [← bytesOf_joinTexts]
  exact tokens?_of_separated (separated_joinTexts ms) (legible_joinTexts h)

end Markup

end SoapMtom.Xml
