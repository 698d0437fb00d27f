import SoapMtom.Proofs.Xml.Tokens

/-!
# Tokens one after another

A token is cut off without a look at what follows it; only a text goes on up to the next markup. So
the bytes after a token can be replaced, and the tokens before it stay. Main statements:

> `Token.Cuts.replace`: other bytes may follow the tokens that are cut off, if a text at their end
> goes no further than before.
>
> `Token.Cuts.join`: if one more text follows a text then both are cut off as one.
-/

namespace SoapMtom

namespace Bytes

/-- The search for a pattern looks no further than the place where it is found. -/
theorem breakOn_replace {p : UInt8} {pat bs content rest : Bytes}
    (h : breakOn (p :: pat) bs = some (content, rest)) (rest' : Bytes) :
    breakOn (p :: pat) (content ++ (p :: pat ++ rest')) = some (content, rest') := by
  have hfrom : ∀ acc, breakOnFrom (p :: pat) acc (content ++ (p :: pat ++ rest)) =
      some (acc.reverse ++ content, rest) →
        breakOnFrom (p :: pat) acc (content ++ (p :: pat ++ rest')) =
          some (acc.reverse ++ content, rest') := by
    clear h
    induction content with
    | nil =>
      intro acc _
      rw [List.nil_append, breakOnFrom_append, List.append_nil]
    | cons b content ih =>
      intro acc h
      rw [List.cons_append, breakOnFrom] at h ⊢
      split at h
      · -- found at once, although bytes stand before it
        have hlength := congrArg List.length (Prod.mk.inj (Option.some.inj h)).1
        simp at hlength
      · next hnot =>
        rw [if_neg]
        · have hmore := ih (b :: acc)
          rw [List.reverse_cons, List.append_assoc, List.singleton_append] at hmore
          exact hmore h
        · intro hpattern
          have hfront : p :: pat <+: b :: (content ++ p :: pat) := by
            refine List.prefix_of_prefix_length_le (List.isPrefixOf_iff_prefix.1 hpattern)
              ⟨rest', by simp⟩ ?_
            simp only [List.length_cons, List.length_append]
            omega
          refine hnot (List.isPrefixOf_iff_prefix.2 (hfront.trans ⟨rest, by simp⟩))
  have hbs := eq_of_breakOn h
  rw [List.append_assoc] at hbs
  rw [hbs] at h
  exact hfrom [] h

end Bytes

namespace Xml.Token

/-! ## What follows a token -/

theorem breakTag_replace {quote : Option UInt8} {before bs content rest : Bytes}
    (h : breakTag quote before bs = some (content, rest)) :
    ∃ taken, bs = taken ++ 62 :: rest ∧
      ∀ rest', breakTag quote before (taken ++ 62 :: rest') = some (content, rest') := by
  induction bs generalizing quote before with
  | nil => cases h
  | cons b bs ih =>
    cases quote with
    | none =>
      rw [breakTag] at h
      split at h
      · next hb =>
        obtain ⟨hcontent, rfl⟩ := Prod.mk.inj (Option.some.inj h)
        refine ⟨[], by rw [hb, List.nil_append], fun rest' => ?_⟩
        rw [List.nil_append, breakTag, hcontent]
        rfl
      · next hb =>
        obtain ⟨taken, rfl, hreplace⟩ := ih h
        refine ⟨b :: taken, rfl, fun rest' => ?_⟩
        rw [List.cons_append, breakTag, if_neg hb]
        exact hreplace rest'
    | some q =>
      rw [breakTag] at h
      obtain ⟨taken, rfl, hreplace⟩ := ih h
      refine ⟨b :: taken, rfl, fun rest' => ?_⟩
      rw [List.cons_append, breakTag]
      exact hreplace rest'

theorem breakDoctype_replace {depth : Nat} {before bs content rest : Bytes}
    (h : breakDoctype depth before bs = some (content, rest)) :
    ∃ taken, bs = taken ++ rest ∧
      ∀ rest', breakDoctype depth before (taken ++ rest') = some (content, rest') := by
  induction bs generalizing depth before with
  | nil => cases h
  | cons b bs ih =>
    have hcons : ∀ {depth' : Nat}, breakDoctype depth' (b :: before) bs = some (content, rest) →
        (∀ more, breakDoctype depth before (b :: more) = breakDoctype depth' (b :: before) more) →
          ∃ taken, b :: bs = taken ++ rest ∧
            ∀ rest', breakDoctype depth before (taken ++ rest') = some (content, rest') := by
      intro depth' h heq
      obtain ⟨taken, rfl, hreplace⟩ := ih h
      exact ⟨b :: taken, rfl, fun rest' => (heq _).trans (hreplace rest')⟩
    rw [breakDoctype] at h
    split at h
    · next hopen => exact hcons h fun more => by rw [breakDoctype, if_pos hopen]
    · next hopen =>
      split at h
      · next hclose =>
        split at h
        · next hdepth =>
          obtain ⟨hcontent, rfl⟩ := Prod.mk.inj (Option.some.inj h)
          refine ⟨[b], rfl, fun rest' => ?_⟩
          rw [List.singleton_append, breakDoctype, if_neg hopen, if_pos hclose, if_pos hdepth,
            hcontent]
        · next hdepth =>
          exact hcons h fun more => by
            rw [breakDoctype, if_neg hopen, if_pos hclose, if_neg hdepth]
      · next hclose =>
        exact hcons h fun more => by rw [breakDoctype, if_neg hopen, if_neg hclose]

/-- A way to cut tokens off that looks no further than the token. -/
def Local (f : Bytes → Cut) : Prop :=
  ∀ {bs rest : Bytes} {t : Token}, f bs = .token t rest →
    ∃ taken, bs = taken ++ rest ∧ ∀ rest', f (taken ++ rest') = .token t rest'

theorem local_cutCdata : Local cutCdata := by
  intro bs rest t h
  have hpattern : Utf8.encode "]]>" = [93, 93, 62] := by decide
  unfold cutCdata at h
  rw [hpattern] at h
  split at h
  · cases h
  · next inside rest₁ hbreak =>
    split at h
    · next content hcontent =>
      obtain ⟨rfl, rfl⟩ := Cut.token.inj h
      refine ⟨inside ++ [93, 93, 62], Bytes.eq_of_breakOn hbreak, fun rest' => ?_⟩
      have hreplace := Bytes.breakOn_replace hbreak rest'
      rw [cutCdata, hpattern, List.append_assoc, hreplace]
      dsimp only
      rw [hcontent]
    · cases h

theorem local_cutComment : Local cutComment := by
  intro bs rest t h
  have hpattern : Utf8.encode "-->" = [45, 45, 62] := by decide
  unfold cutComment at h
  rw [hpattern] at h
  split at h
  · cases h
  · next content rest₁ hbreak =>
    split at h
    · next hopen =>
      obtain ⟨rfl, rfl⟩ := Cut.token.inj h
      have hhyphens : Utf8.encode "--" = [45, 45] := by decide
      have hreplace := Bytes.breakOn_replace hbreak
      refine ⟨bs.take 2 ++ (content ++ [45, 45, 62]), ?_, fun rest' => ?_⟩
      · rw [List.append_assoc, ← Bytes.eq_of_breakOn hbreak, List.take_append_drop]
      · rw [hopen, hhyphens, List.append_assoc, List.append_assoc]
        show cutComment (45 :: 45 :: (content ++ ([45, 45, 62] ++ rest'))) = _
        rw [cutComment, hpattern, List.drop_succ_cons, List.drop_succ_cons, List.drop_zero,
          hreplace rest']
        dsimp only
        rw [if_pos (by rw [hhyphens]; rfl)]
    · cases h

theorem local_cutDoctype : Local cutDoctype := by
  intro bs rest t h
  unfold cutDoctype at h
  split at h
  · cases h
  · next inside rest₁ hbreak =>
    obtain ⟨taken, htaken, hreplace⟩ := breakDoctype_replace hbreak
    split at h
    · next hkeyword =>
      split at h
      · cases h
      · next hname =>
        obtain ⟨rfl, rfl⟩ := Cut.token.inj h
        refine ⟨taken, htaken, fun rest' => ?_⟩
        rw [cutDoctype, hreplace rest']
        dsimp only
        rw [if_pos hkeyword, if_neg hname]
    · cases h

/-- A cut that takes something depends on the first byte like any other. -/
theorem Local.cons {f : Bytes → Cut} (hlocal : Local f) {cause : MarkupError}
    (hempty : f [] = .failure cause []) {b : UInt8} {bs rest : Bytes} {t : Token}
    (h : f (b :: bs) = .token t rest) :
    ∃ taken, bs = taken ++ rest ∧ ∀ rest', f (b :: (taken ++ rest')) = .token t rest' := by
  obtain ⟨taken, htaken, hreplace⟩ := hlocal h
  cases taken with
  | nil =>
    have hnothing := hreplace []
    rw [List.nil_append, hempty] at hnothing
    cases hnothing
  | cons b' taken =>
    obtain ⟨rfl, rfl⟩ := List.cons.inj htaken
    exact ⟨taken, rfl, hreplace⟩

/-- An instruction goes on to its own end. -/
theorem cutMarkup_mark_replace {after content rest : Bytes} (hhead : after.head? ≠ some 62)
    (hbreak : Bytes.breakOn (Utf8.encode "?>") after = some (content, rest)) :
    ∃ taken, 63 :: after = taken ++ rest ∧
      ∀ rest', cutMarkup (taken ++ rest') = .token (.instruction content) rest' := by
  have hpattern : Utf8.encode "?>" = [63, 62] := by decide
  rw [hpattern] at hbreak
  have hafter := Bytes.eq_of_breakOn hbreak
  refine ⟨63 :: (content ++ [63, 62]), by rw [hafter, List.cons_append], fun rest' => ?_⟩
  rw [List.cons_append, List.append_assoc]
  refine cutMarkup_of_mark ?_ (hpattern ▸ Bytes.breakOn_replace hbreak rest')
  rw [hafter, List.append_assoc] at hhead
  cases content with
  | nil => exact fun hmark => absurd (Option.some.inj hmark) (by decide)
  | cons b content => exact hhead

/-- A tag goes on to its own end. -/
theorem cutMarkup_tag_replace {bs tag rest : Bytes} (hbang : bs.head? ≠ some 33)
    (hslash : bs.head? ≠ some 47) (hmark : bs.head? ≠ some 63)
    (hbreak : breakTag none [] bs = some (tag, rest)) :
    ∃ taken, bs = taken ++ rest ∧ ∀ rest', cutMarkup (taken ++ rest') =
      if tag.getLast? = some 47 then .token (.empty tag.dropLast) rest'
      else .token (.start tag) rest' := by
  obtain ⟨taken, rfl, hreplace⟩ := breakTag_replace hbreak
  refine ⟨taken ++ [62], by rw [List.append_assoc, List.singleton_append], fun rest' => ?_⟩
  rw [List.append_assoc, List.singleton_append]
  have hbreak' := hreplace rest'
  -- the first byte is the same, even if it ends the tag
  cases taken with
  | nil => exact cutMarkup_of_tag (by decide) (by decide) (by decide) hbreak'
  | cons b taken =>
    exact cutMarkup_of_tag (fun h => hbang (congrArg some h)) (fun h => hslash (congrArg some h))
      (fun h => hmark (congrArg some h)) hbreak'

theorem local_cutMarkup : Local cutMarkup := by
  intro bs rest t h
  have hhead : ∀ (bs : Bytes) (b : UInt8), (∀ more, bs ≠ b :: more) → bs.head? ≠ some b := by
    intro bs b hne heq
    obtain ⟨more, hmore⟩ := List.head?_eq_some_iff.1 heq
    exact hne more hmore
  rw [cutMarkup.eq_def] at h
  split at h
  · cases h
  · next after =>
    split at h
    · obtain ⟨taken, rfl, hreplace⟩ := local_cutCdata.cons rfl h
      exact ⟨33 :: 91 :: taken, rfl, hreplace⟩
    · obtain ⟨taken, rfl, hreplace⟩ := local_cutComment.cons rfl h
      exact ⟨33 :: 45 :: taken, rfl, hreplace⟩
    · obtain ⟨taken, rfl, hreplace⟩ := local_cutDoctype.cons rfl h
      exact ⟨33 :: 68 :: taken, rfl, hreplace⟩
    · obtain ⟨taken, rfl, hreplace⟩ := local_cutDoctype.cons rfl h
      exact ⟨33 :: 100 :: taken, rfl, hreplace⟩
    · cases h
  · next after =>
    split at h
    · cases h
    · next tag rest₁ hbreak =>
      obtain ⟨rfl, rfl⟩ := Cut.token.inj h
      obtain ⟨taken, rfl, hreplace⟩ := breakTag_replace hbreak
      refine ⟨47 :: (taken ++ [62]), by simp, fun rest' => ?_⟩
      rw [List.cons_append, List.append_assoc, List.singleton_append, cutMarkup, hreplace rest']
  · cases h
  · next after hnot =>
    split at h
    · cases h
    · next content rest₁ hbreak =>
      obtain ⟨rfl, rfl⟩ := Cut.token.inj h
      exact cutMarkup_mark_replace (hhead after 62 hnot) hbreak
  · next hempty hbang hslash hdone hmark =>
    split at h
    · cases h
    · next tag rest₁ hbreak =>
      obtain ⟨taken, htaken, hreplace⟩ := cutMarkup_tag_replace (hhead bs 33 hbang)
        (hhead bs 47 hslash) (hhead bs 63 hmark) hbreak
      have hrest : rest₁ = rest := by
        split at h <;> exact (Cut.token.inj h).2
      subst hrest
      refine ⟨taken, htaken, fun rest' => (hreplace rest').trans ?_⟩
      split at h
      · next hlast => rw [if_pos hlast, (Cut.token.inj h).1]
      · next hlast => rw [if_neg hlast, (Cut.token.inj h).1]

/-- Whether a token ends where `rest` starts: a text does not end before more text. -/
def EndsAt : Token → Bytes → Prop
  | .text _, rest => ∀ b ∈ rest.head?, b = 60
  | _, _ => True

theorem EndsAt.of_head_eq {t : Token} {rest rest' : Bytes} (h : t.EndsAt rest)
    (hhead : rest'.head? = rest.head?) : t.EndsAt rest' := by
  cases t with
  | text content =>
    rw [EndsAt, hhead]
    exact h
  | _ => trivial

/-- Markup is no text. -/
theorem endsAt_of_cutMarkup {bs rest : Bytes} {t : Token} (h : cutMarkup bs = .token t rest)
    (rest' : Bytes) : t.EndsAt rest' := by
  cases t with
  | text content =>
    unfold cutMarkup cutCdata cutComment cutDoctype at h
    grind
  | _ => trivial

/-- A text goes on to the next markup. -/
theorem cut_text {b : UInt8} {content rest : Bytes} (hb : b ≠ 60) (hcontent : ∀ x ∈ content, x ≠ 60)
    (hrest : EndsAt (.text (b :: content)) rest) :
    cut b (content ++ rest) = .token (.text (b :: content)) rest := by
  have htaken : ∀ x ∈ content, (x != 60) = true := fun x hx => bne_iff_ne.2 (hcontent x hx)
  rw [cut, if_neg hb, List.takeWhile_append_of_pos htaken, List.dropWhile_append_of_pos htaken]
  cases rest with
  | nil => simp
  | cons x rest =>
    obtain rfl : x = 60 := hrest x rfl
    simp

theorem ne_of_mem_takeWhile {bs : Bytes} : ∀ b ∈ bs.takeWhile (· != 60), b ≠ 60 := fun b hb =>
  bne_iff_ne.1 (List.all_eq_true.1 List.all_takeWhile b hb)

/-- A token is cut off whatever follows it, if it ends there. -/
theorem cut_replace {b : UInt8} {after rest : Bytes} {t : Token}
    (h : cut b after = .token t rest) :
    t.EndsAt rest ∧ ∃ taken, after = taken ++ rest ∧
      ∀ rest', t.EndsAt rest' → cut b (taken ++ rest') = .token t rest' := by
  unfold cut at h
  split at h
  · next hb =>
    obtain ⟨taken, htaken, hreplace⟩ := local_cutMarkup h
    refine ⟨endsAt_of_cutMarkup h rest, taken, htaken, fun rest' _ => ?_⟩
    rw [cut, if_pos hb, hreplace]
  · next hb =>
    obtain ⟨rfl, rfl⟩ := Cut.token.inj h
    have hends : ∀ x ∈ (after.dropWhile (· != 60)).head?, x = 60 := by
      intro x hx
      have hhead := List.head?_dropWhile_not (· != 60) after
      rw [Option.mem_def.1 hx] at hhead
      simpa using hhead
    exact ⟨hends, after.takeWhile (· != 60), (List.takeWhile_append_dropWhile).symm,
      fun rest' hrest' => cut_text hb ne_of_mem_takeWhile hrest'⟩

/-! ## The first tokens of bytes -/

/-- Tokens are cut off the bytes one after another, and `rest` is left. -/
inductive Cuts : Bytes → List Token → Bytes → Prop
  | done (bs : Bytes) : Cuts bs [] bs
  | next {b : UInt8} {after middle rest : Bytes} {t : Token} {ts : List Token}
    (h : cut b after = .token t middle) (hrest : Cuts middle ts rest) :
    Cuts (b :: after) (t :: ts) rest

namespace Cuts

variable {bs middle rest : Bytes} {ts us : List Token}

theorem trans (h : Cuts bs ts middle) (h' : Cuts middle us rest) : Cuts bs (ts ++ us) rest := by
  induction h with
  | done bs => exact h'
  | next hcut _ ih => exact .next hcut (ih h')

theorem exists_of_append (h : Cuts bs (ts ++ us) rest) :
    ∃ middle, Cuts bs ts middle ∧ Cuts middle us rest := by
  induction ts generalizing bs with
  | nil => exact ⟨bs, .done bs, h⟩
  | cons t ts ih =>
    cases h with
    | next hcut hrest =>
      obtain ⟨middle, hts, hus⟩ := ih hrest
      exact ⟨middle, .next hcut hts, hus⟩

/-- The tokens of the bytes are these and those of the rest. -/
theorem tokens?_eq (h : Cuts bs ts rest) : tokens? bs = (tokens? rest).map (ts ++ ·) := by
  induction h with
  | done bs => simp
  | next hcut _ ih =>
    rw [tokens?_of_cut hcut, ih, Option.map_map]
    rfl

/-- What is left is shorter, if anything is cut off. -/
theorem length_lt (h : Cuts bs ts rest) (hts : ts ≠ []) : rest.length < bs.length := by
  induction h with
  | done bs => exact absurd rfl hts
  | @next b after middle rest t ts hcut hrest ih =>
    have hcutLength := length_cut b after
    rw [hcut] at hcutLength
    cases ts with
    | nil =>
      cases hrest
      exact hcutLength
    | cons t' ts => exact Nat.lt_trans (ih (List.cons_ne_nil _ _)) hcutLength

/-- The rest is what the tokens leave of the bytes. -/
theorem exists_append (h : Cuts bs ts rest) : ∃ taken, bs = taken ++ rest := by
  induction h with
  | done bs => exact ⟨[], rfl⟩
  | @next b after middle rest t ts hcut _ ih =>
    obtain ⟨-, front, rfl, -⟩ := cut_replace hcut
    obtain ⟨between, rfl⟩ := ih
    exact ⟨b :: (front ++ between), by simp⟩

/-- The last token ends where the rest starts. -/
theorem endsAt (h : Cuts bs ts rest) : ∀ t ∈ ts.getLast?, t.EndsAt rest := by
  induction h with
  | done bs => simp
  | @next b after middle rest t ts hcut hrest ih =>
    cases ts with
    | nil =>
      cases hrest
      simpa using (cut_replace hcut).1
    | cons t' ts => rwa [List.getLast?_cons_cons]

/-- Other bytes may follow the tokens, if the last of them ends there. -/
theorem replace (h : Cuts bs ts rest) {rest' : Bytes} (hends : ∀ t ∈ ts.getLast?, t.EndsAt rest') :
    ∃ taken, bs = taken ++ rest ∧ Cuts (taken ++ rest') ts rest' := by
  induction h with
  | done bs => exact ⟨[], rfl, .done rest'⟩
  | @next b after middle rest t ts hcut hrest ih =>
    obtain ⟨hmiddle, taken, rfl, hreplace⟩ := cut_replace hcut
    cases ts with
    | nil =>
      cases hrest
      exact ⟨b :: taken, rfl, .next (hreplace rest' (hends t rfl)) (.done rest')⟩
    | cons t' ts =>
      rw [List.getLast?_cons_cons] at hends
      obtain ⟨front, rfl, hcuts⟩ := ih hends
      refine ⟨b :: (taken ++ front), by simp, ?_⟩
      rw [List.cons_append, List.append_assoc]
      refine .next (hreplace _ (hmiddle.of_head_eq ?_)) hcuts
      -- more tokens follow, so the bytes after this one start as before
      cases front with
      | nil => exact absurd (hrest.length_lt (List.cons_ne_nil _ _)) (by simp)
      | cons x front => rfl

end Cuts

/-- A text that is cut off has no markup in it. -/
theorem cuts_text_iff {bs content rest : Bytes} :
    Cuts bs [.text content] rest ↔
      bs = content ++ rest ∧ content ≠ [] ∧ (∀ b ∈ content, b ≠ 60) ∧ ∀ b ∈ rest.head?, b = 60 := by
  constructor
  · intro h
    have hends : ∀ b ∈ rest.head?, b = 60 := h.endsAt (.text content) rfl
    cases h with
    | @next b after _ _ _ _ hcut hdone =>
      cases hdone
      unfold cut at hcut
      split at hcut
      · exact absurd (endsAt_of_cutMarkup hcut [0] 0 rfl) (by decide)
      · next hb =>
        obtain ⟨hcontent, rfl⟩ := Cut.token.inj hcut
        obtain rfl := Token.text.inj hcontent
        exact ⟨by simp, List.cons_ne_nil _ _, List.forall_mem_cons.2 ⟨hb, ne_of_mem_takeWhile⟩,
          hends⟩
  · rintro ⟨rfl, hne, hcontent, hends⟩
    obtain ⟨b, content, rfl⟩ := List.exists_cons_of_ne_nil hne
    obtain ⟨hb, hcontent⟩ := List.forall_mem_cons.1 hcontent
    exact .next (cut_text hb hcontent hends) (.done rest)

namespace Cuts

variable {bs after rest rest' : Bytes} {ts : List Token}

/-- Two texts with nothing between them are one. -/
theorem join {c d : Bytes} (h : Cuts bs (ts ++ [.text c]) rest)
    (hnext : Cuts after [.text d] rest') :
    ∃ taken, bs = taken ++ rest ∧ Cuts (taken ++ after) (ts ++ [.text (c ++ d)]) rest' := by
  obtain ⟨middle, hts, hc⟩ := h.exists_of_append
  obtain ⟨rfl, hne, hcontent, -⟩ := cuts_text_iff.1 hc
  obtain ⟨rfl, -, hcontent', hends⟩ := cuts_text_iff.1 hnext
  -- the joined text starts with the same byte, so the tokens before it stay
  have hhead : (c ++ d ++ rest').head? = (c ++ rest).head? := by
    obtain ⟨b, more, rfl⟩ := List.exists_cons_of_ne_nil hne
    rfl
  obtain ⟨taken, rfl, hreplaced⟩ := hts.replace fun t ht => (hts.endsAt t ht).of_head_eq hhead
  refine ⟨taken ++ c, (List.append_assoc ..).symm, ?_⟩
  rw [List.append_assoc, ← List.append_assoc c]
  refine hreplaced.trans (cuts_text_iff.2 ⟨rfl, ?_, ?_, hends⟩)
  · simp [hne]
  · exact List.forall_mem_append.2 ⟨hcontent, hcontent'⟩

/-- Bytes without markup are cut into texts. -/
theorem exists_text_of_not_mem {taken : Bytes} (h : Cuts (taken ++ rest) ts rest)
    (hmem : 60 ∉ taken) : ∀ t ∈ ts, ∃ content, t = .text content := by
  generalize hbs : taken ++ rest = bs at h
  induction h generalizing taken with
  | done bs => simp
  | @next b after middle rest t ts hcut hrest ih =>
    obtain ⟨-, front, rfl, -⟩ := cut_replace hcut
    obtain ⟨between, rfl⟩ := hrest.exists_append
    have htaken : taken = b :: (front ++ between) := by
      refine List.append_cancel_right (hbs.trans ?_)
      simp
    subst htaken
    rw [List.mem_cons, List.mem_append, not_or, not_or] at hmem
    refine List.forall_mem_cons.2 ⟨?_, ih hmem.2.2 rfl⟩
    unfold cut at hcut
    rw [if_neg (Ne.symm hmem.1)] at hcut
    exact ⟨_, (Cut.token.inj hcut).1.symm⟩

end Cuts

/-! ## All tokens of bytes -/

/-- The scanned tokens are cut off one after another. -/
theorem cuts_of_scan {bs : Bytes} {ts us : List (Token × Bytes)}
    (h : (scan bs).tokens = ts ++ us) :
    Cuts bs (ts.map Prod.fst) ((ts.getLast?.map Prod.snd).getD bs) ∧
      scan ((ts.getLast?.map Prod.snd).getD bs) =
        { tokens := us, failure := (scan bs).failure } := by
  induction ts generalizing bs with
  | nil =>
    refine ⟨.done bs, ?_⟩
    rw [List.nil_append] at h
    rw [← h]
    rfl
  | cons t ts ih =>
    obtain ⟨t, rest⟩ := t
    have hlast : ((((t, rest) :: ts).getLast?.map Prod.snd).getD bs) =
        (ts.getLast?.map Prod.snd).getD rest := by
      cases ts with
      | nil => rfl
      | cons u ts => rw [List.getLast?_cons_cons, List.getLast?_cons]; rfl
    rw [hlast]
    cases bs with
    | nil =>
      rw [scan] at h
      cases h
    | cons b after =>
      have hcut : ∃ t' rest', cut b after = .token t' rest' := by
        rw [scan] at h
        split at h
        · next t' rest' hcut => exact ⟨t', rest', hcut⟩
        · cases h
      obtain ⟨t', rest', hcut⟩ := hcut
      rw [scan_of_cut hcut] at h ⊢
      obtain ⟨heq, hrest⟩ := List.cons.inj h
      obtain ⟨rfl, rfl⟩ := Prod.mk.inj heq
      obtain ⟨hcuts, hscan⟩ := ih hrest
      exact ⟨.next hcut hcuts, hscan⟩

/-- Where a text does not end, the next token is a text that goes on with it. -/
theorem exists_text_of_not_endsAt {content rest : Bytes} (h : ¬EndsAt (.text content) rest) :
    ∃ more rest', Cuts rest [.text more] rest' ∧
      scan rest = .cons (.text more, rest') (scan rest') := by
  cases rest with
  | nil => exact absurd (fun b hb => nomatch hb) h
  | cons b after =>
    have hb : b ≠ 60 := by
      rintro rfl
      exact h fun x hx => (Option.some.inj hx).symm
    have hcut : cut b after =
        .token (.text (b :: after.takeWhile (· != 60))) (after.dropWhile (· != 60)) := if_neg hb
    exact ⟨_, _, .next hcut (.done _), scan_of_cut hcut⟩

end Xml.Token

end SoapMtom
