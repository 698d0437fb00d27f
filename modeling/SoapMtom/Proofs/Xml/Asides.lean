import SoapMtom.Proofs.Xml.Cuts
import SoapMtom.Proofs.Xml.Joining
import SoapMtom.Proofs.Xml.Reader

/-!
# Comments and instructions

A comment says nothing, and neither does a processing instruction, but each of them ends the text
before it. Where it stands in the middle of a text, its deletion leaves one text of two, and this
text is no indentation although one of the two may have been. Main statements:

> `resolve_append`: references are read in each part of a text for itself.
>
> `Document.read_without`: once a comment or an instruction is deleted a document has the same
> elements, attributes and references as before, and the same texts exactly if no blank text is torn
> off another one.
-/

namespace SoapMtom.Xml

/-! ## Texts in two parts -/

theorem readReference_congr {first : Nat} {name : List Char} {c : Char}
    (h : readReference first name = .ok c) (first' : Nat) : readReference first' name = .ok c := by
  unfold readReference at h ⊢
  split at h
  · exact h
  · split at h
    · exact h
    · cases h

/-- Characters whose references can be read are read in the same way wherever they stand, and
whatever follows them. -/
theorem resolveFrom_append {offset : Nat} {done cs ds : List Char}
    (h : resolveFrom offset done cs = .ok ds) :
    ∃ own, ds = done.reverse ++ own ∧ ∀ offset' done' more, ∃ next,
      resolveFrom offset' done' (cs ++ more) = resolveFrom next (own.reverse ++ done') more := by
  fun_induction resolveFrom offset done cs with
  | case1 offset done =>
    cases h
    exact ⟨[], by simp, fun offset' done' more => ⟨offset', rfl⟩⟩
  | case2 offset done rest after hdrop name d hd ih =>
    obtain ⟨own, rfl, hmore⟩ := ih h
    refine ⟨d :: own, by simp, fun offset' done' more => ?_⟩
    have hname : ∀ d ∈ name, (d != '&' && d != ';') = true :=
      List.all_eq_true.1 List.all_takeWhile
    have hrest : rest = name ++ ';' :: after := by
      rw [← hdrop]
      exact (List.takeWhile_append_dropWhile ..).symm
    obtain ⟨middle, hmiddle⟩ :=
      resolveFrom_named offset' done' name (after ++ more) d hname (readReference_congr hd)
    obtain ⟨next, hnext⟩ := hmore middle (d :: done') more
    refine ⟨next, ?_⟩
    rw [hrest, List.cons_append, List.append_assoc, List.cons_append, ← List.cons_append, hmiddle,
      hnext]
    simp
  | case3 => cases h
  | case4 => cases h
  | case5 offset done c rest hc ih =>
    obtain ⟨own, rfl, hmore⟩ := ih h
    refine ⟨c :: own, by simp, fun offset' done' more => ?_⟩
    obtain ⟨next, hnext⟩ := hmore (offset' + c.utf8Size) (c :: done') more
    refine ⟨next, ?_⟩
    rw [List.cons_append, resolveFrom, if_neg hc, hnext]
    simp

theorem resolve_append {s t s' t' : String} (hs : resolve s = .ok s') (ht : resolve t = .ok t') :
    resolve (s ++ t) = .ok (s' ++ t') := by
  unfold resolve at hs ht ⊢
  obtain ⟨ds, hds, rfl⟩ := map_eq_ok.1 hs
  obtain ⟨es, hes, rfl⟩ := map_eq_ok.1 ht
  obtain ⟨front, hfront, hmore⟩ := resolveFrom_append hds
  obtain ⟨back, hback, hmore'⟩ := resolveFrom_append hes
  obtain ⟨middle, hmiddle⟩ := hmore 0 [] t.toList
  obtain ⟨last, hlast⟩ := hmore' middle (front.reverse ++ []) []
  rw [List.append_nil t.toList] at hlast
  rw [String.toList_append, hmiddle, hlast, resolveFrom, hfront, hback]
  simp [Except.map]

theorem Event.readText_append {c d : Bytes} {s t : String} (hs : readText c = .ok s)
    (ht : readText d = .ok t) : readText (c ++ d) = .ok (s ++ t) := by
  have hread : ∀ {bs : Bytes} {s : String}, readText bs = .ok s →
      ∃ raw, bs = Utf8.encode raw ∧ resolve raw = .ok s := by
    intro bs s h
    unfold readText at h
    split at h
    · cases h
    · next raw hraw => exact ⟨raw, Utf8.decode_eq_ok.1 hraw, mapError_eq_ok.1 h⟩
  obtain ⟨raw, rfl, hraw⟩ := hread hs
  obtain ⟨raw', rfl, hraw'⟩ := hread ht
  rw [readText, ← Utf8.encode_append, Utf8.decode_encode]
  exact mapError_eq_ok.2 (resolve_append hraw hraw')

/-! ## Tokens and their events -/

namespace Event

/-- The tokens are read one after another, and these are their events. -/
inductive Reads : Scopes → List Token → List Event → Scopes → Prop
  | done (scopes : Scopes) : Reads scopes [] [] scopes
  | next {scopes middle last : Scopes} {t : Token} {ts : List Token} {events others : List Event}
    (h : ofToken 0 scopes t [] = .ok (events, middle)) (hrest : Reads middle ts others last) :
    Reads scopes (t :: ts) (events ++ others) last

namespace Reads

variable {scopes middle last : Scopes} {ts us : List Token} {events others : List Event}

theorem trans (h : Reads scopes ts events middle) (h' : Reads middle us others last) :
    Reads scopes (ts ++ us) (events ++ others) last := by
  induction h with
  | done scopes => exact h'
  | next ht _ ih =>
    rw [List.cons_append, List.append_assoc]
    exact .next ht (ih h')

theorem exists_of_append (h : Reads scopes (ts ++ us) events last) :
    ∃ before after middle, events = before ++ after ∧ Reads scopes ts before middle ∧
      Reads middle us after last := by
  induction ts generalizing scopes events with
  | nil => exact ⟨[], events, scopes, rfl, .done scopes, h⟩
  | cons t ts ih =>
    cases h with
    | @next _ middle _ _ _ own others ht hrest =>
      obtain ⟨before, after, middle, rfl, hts, hus⟩ := ih hrest
      exact ⟨own ++ before, after, middle, (List.append_assoc ..).symm, .next ht hts, hus⟩

/-- One token. -/
theorem singleton_iff {t : Token} :
    Reads scopes [t] events last ↔ ofToken 0 scopes t [] = .ok (events, last) := by
  constructor
  · intro h
    cases h with
    | next ht hrest =>
      cases hrest
      rwa [List.append_nil]
  · intro h
    rw [← List.append_nil events]
    exact .next h (.done last)

/-- A text is read as one event. -/
theorem text_iff {content : Bytes} :
    Reads scopes [.text content] events last ↔
      ∃ s, readText content = .ok s ∧ events = [.text s] ∧ last = scopes := by
  rw [singleton_iff, ofToken, bind_eq_ok]
  constructor
  · rintro ⟨s, hs, h⟩
    cases h
    exact ⟨s, mapError_eq_ok.1 hs, rfl, rfl⟩
  · rintro ⟨s, hs, rfl, rfl⟩
    exact ⟨s, mapError_eq_ok.2 hs, rfl⟩

theorem ofTokensFrom_eq {ts : List (Token × Bytes)}
    (h : Reads scopes (ts.map Prod.fst) events last) (total : Nat) :
    ofTokensFrom total scopes none ts = { events, failure := none } := by
  induction ts generalizing scopes events with
  | nil =>
    cases h
    rfl
  | cons t ts ih =>
    obtain ⟨t, rest⟩ := t
    cases h with
    | next ht hrest =>
      rw [ofTokensFrom, ofToken_of_eq_ok ht]
      dsimp only
      rw [ih hrest]

end Reads

/-- Tokens without a failure can be read. -/
theorem exists_reads {total : Nat} {scopes : Scopes} {failure : Option (MarkupError × Bytes)}
    {ts : List (Token × Bytes)} (h : (ofTokensFrom total scopes failure ts).failure = none) :
    failure = none ∧
      ∃ last, Reads scopes (ts.map Prod.fst) (ofTokensFrom total scopes failure ts).events last := by
  induction ts generalizing scopes with
  | nil => exact ⟨Option.map_eq_none_iff.1 h, scopes, .done scopes⟩
  | cons t ts ih =>
    obtain ⟨t, rest⟩ := t
    rw [ofTokensFrom] at h ⊢
    split at h
    · cases h
    · next own middle ht =>
      obtain ⟨hfailure, last, hrest⟩ := ih h
      exact ⟨hfailure, last, .next (ofToken_of_eq_ok ht 0 []) hrest⟩

/-- No element is open after texts. -/
theorem Reads.depth_of_texts {scopes last : Scopes} {ts : List Token} {events : List Event}
    (h : Reads scopes ts events last) (hts : ∀ t ∈ ts, ∃ content, t = .text content) :
    depth events.reverse = 0 := by
  have hdepth : ∀ before, depth (events.reverse ++ before) = depth before := by
    induction h with
    | done scopes => exact fun before => rfl
    | next ht _ ih =>
      intro before
      obtain ⟨⟨content, rfl⟩, hrest⟩ := List.forall_mem_cons.1 hts
      obtain ⟨s, -, hs⟩ := bind_eq_ok.1 ht
      cases hs
      rw [List.reverse_append, List.append_assoc, ih hrest]
      rfl
  have hnil := hdepth []
  rwa [List.append_nil] at hnil

end Event

namespace Document

/-- A document is read token by token. -/
theorem reads_of_read {bs : Bytes} {doc : Document} (h : read bs = .ok doc) :
    (Token.scan (dropMark bs)).failure = none ∧
      (∃ last, Event.Reads .initial ((Token.scan (dropMark bs)).tokens.map Prod.fst) (events bs)
        last) ∧
      ofEvents { events := events bs, failure := none } = .ok doc := by
  rw [read, ofEvents] at h
  obtain ⟨b, hb, h⟩ := bind_eq_ok.1 h
  split at h
  · cases h
  · next hnone =>
    obtain ⟨hfailure, hreads⟩ := Event.exists_reads hnone
    exact ⟨hfailure, hreads, bind_eq_ok.2 ⟨b, hb, h⟩⟩

theorem read_of_reads {bs : Bytes} {ts : List Token} {events : List Event} {last : Scopes}
    (htokens : Token.tokens? (dropMark bs) = some ts)
    (hreads : Event.Reads .initial ts events last) :
    read bs = ofEvents { events, failure := none } := by
  unfold Token.tokens? at htokens
  split at htokens
  · next hscan =>
    obtain rfl := Option.some.inj htokens
    rw [read, Event.ofTokens, hscan, hreads.ofTokensFrom_eq]
  · cases htokens

/-- The mark at the head is none of the bytes that belong to markup. -/
theorem dropMark_append {front : Bytes} (h : 60 ∈ front) (rest : Bytes) :
    dropMark (front ++ rest) = dropMark front ++ rest := by
  unfold dropMark Bytes.dropPrefix?
  match front, h with
  | [b], h =>
    obtain rfl := List.mem_singleton.1 h
    rfl
  | [b, c], h =>
    rcases List.mem_cons.1 h with rfl | h
    · rfl
    · obtain rfl := List.mem_singleton.1 h
      simp [List.isPrefixOf]
  | b :: c :: d :: front, h =>
    have hmark : [0xEF, 0xBB, 0xBF].isPrefixOf (b :: c :: d :: front ++ rest) =
        [0xEF, 0xBB, 0xBF].isPrefixOf (b :: c :: d :: front) := rfl
    rw [hmark]
    split <;> rfl

theorem exists_dropMark (bs : Bytes) : ∃ mark, bs = mark ++ dropMark bs := by
  unfold dropMark
  cases h : Bytes.dropPrefix? [0xEF, 0xBB, 0xBF] bs with
  | none => exact ⟨[], rfl⟩
  | some rest => exact ⟨_, Bytes.eq_of_dropPrefix? h⟩

end Document

/-! ## Comments and instructions in a document -/

/-- Whether a token says nothing. -/
def Token.isAside : Token → Bool
  | .comment _ | .instruction _ => true
  | _ => false

/-- The characters of a token, if it is a text. -/
def Token.string : Token → String
  | .text content => (Event.readText content).toOption.getD ""
  | _ => ""

theorem Token.string_text {content : Bytes} {s : String}
    (h : Event.readText content = .ok s) : (Token.text content).string = s := by
  rw [string, h]
  rfl

namespace Document

/-- The events of tokens at the start of a document. -/
def eventsOf (ts : List (Token × Bytes)) : List Event :=
  (Event.ofTokens 0 { tokens := ts, failure := none }).events

/-- A comment or an instruction inside the root of a document. Every token of the document stands with
the bytes after it. -/
structure Aside (bs : Bytes) where
  before : List (Token × Bytes)
  token : Token
  rest : Bytes
  after : List (Token × Bytes)
  scanned : (Token.scan (dropMark bs)).tokens = before ++ (token, rest) :: after
  isAside : token.isAside = true
  inside : 0 < Event.depth (eventsOf before).reverse

namespace Aside

variable {bs : Bytes} (a : Aside bs)

/-- The bytes of the document from the aside on. -/
def start : Bytes := (a.before.getLast?.map Prod.snd).getD (dropMark bs)

/-- The document without the aside. -/
def without : Bytes := bs.take (bs.length - a.start.length) ++ a.rest

/-- The text that ends where the aside starts. -/
def textBefore : String := ((a.before.map Prod.fst).getLast?.map Token.string).getD ""

/-- The text that starts where the aside ends. -/
def textAfter : String := ((a.after.map Prod.fst).head?.map Token.string).getD ""

/-- The events of the document before the aside. -/
def eventsBefore : List Event := eventsOf a.before

/-- The events of the document after the aside. -/
def eventsAfter : List Event := (events bs).drop a.eventsBefore.length

/-- Whether the aside stands between two texts one of which is indentation, while the other is not. -/
def Tears : Prop :=
  Event.AreTorn a.eventsBefore.reverse a.textBefore a.textAfter a.eventsAfter

instance : Decidable a.Tears := inferInstanceAs (Decidable (Event.AreTorn ..))

/-- The aside and the tokens before it are cut off one after another. -/
theorem cuts :
    Token.Cuts (dropMark bs) (a.before.map Prod.fst) a.start ∧
      Token.Cuts a.start [a.token] a.rest ∧
        Token.scan a.rest = { tokens := a.after, failure := (Token.scan (dropMark bs)).failure } := by
  obtain ⟨hbefore, hstart⟩ := Token.cuts_of_scan a.scanned
  have hscanned : (Token.scan a.start).tokens = [(a.token, a.rest)] ++ a.after := by
    rw [start, hstart]
    rfl
  obtain ⟨htoken, hrest⟩ := Token.cuts_of_scan hscanned
  refine ⟨hbefore, htoken, hrest.trans ?_⟩
  rw [start, hstart]

/-- An aside is read as nothing. -/
theorem ofToken_eq (scopes : Scopes) : Event.ofToken 0 scopes a.token [] = .ok ([], scopes) := by
  have haside := a.isAside
  cases htoken : a.token with
  | comment content | instruction content => rfl
  | _ =>
    rw [htoken] at haside
    cases haside

/-- The events of an accepted document are those before the aside and those after it. -/
theorem reads {doc : Document} (h : read bs = .ok doc) :
    ∃ middle last, Event.Reads .initial (a.before.map Prod.fst) a.eventsBefore middle ∧
      Event.Reads middle (a.after.map Prod.fst) a.eventsAfter last ∧
        events bs = a.eventsBefore ++ a.eventsAfter := by
  obtain ⟨-, ⟨last, hreads⟩, -⟩ := reads_of_read h
  rw [a.scanned, List.map_append, List.map_cons] at hreads
  obtain ⟨before, after, middle, hevents, hbefore, hafter⟩ := hreads.exists_of_append
  have heventsBefore : a.eventsBefore = before := by
    rw [eventsBefore, eventsOf, Event.ofTokens, hbefore.ofTokensFrom_eq]
  have heventsAfter : a.eventsAfter = after := by
    rw [eventsAfter, hevents, heventsBefore, List.drop_left]
  rw [heventsBefore, heventsAfter]
  cases hafter with
  | next htoken hafter =>
    rw [a.ofToken_eq] at htoken
    cases htoken
    exact ⟨middle, last, hbefore, hafter, hevents⟩

/-- The document without the aside starts with the same bytes, and these have the tokens before the
aside. -/
theorem exists_front {doc : Document} (h : read bs = .ok doc) :
    ∃ front, dropMark bs = front ++ a.start ∧ dropMark a.without = front ++ a.rest := by
  obtain ⟨hcuts, -, -⟩ := a.cuts
  obtain ⟨front, hfront⟩ := hcuts.exists_append
  refine ⟨front, hfront, ?_⟩
  -- inside the root markup stands before the aside, so the mark at the head stays apart
  have hmem : 60 ∈ front := by
    by_contra hmem
    rw [hfront] at hcuts
    obtain ⟨middle, last, hbefore, -, -⟩ := a.reads h
    have hdepth := hbefore.depth_of_texts (hcuts.exists_text_of_not_mem hmem)
    exact Nat.ne_of_gt a.inside hdepth
  obtain ⟨mark, hmark⟩ := exists_dropMark bs
  have hbs : bs = mark ++ front ++ a.start := by rw [List.append_assoc, ← hfront, ← hmark]
  have hlength : bs.length - a.start.length = (mark ++ front).length := by
    have hsum : bs.length = (mark ++ front).length + a.start.length := by
      rw [← List.length_append, ← hbs]
    omega
  have htake : bs.take (bs.length - a.start.length) = mark ++ front := by
    rw [hlength]
    exact (congrArg (List.take _) hbs).trans List.take_left
  have hmem' := List.mem_append_right mark hmem
  have hdrop : dropMark (mark ++ front) = front :=
    List.append_cancel_right
      ((((congrArg dropMark hbs).trans (dropMark_append hmem' _)).symm).trans hfront)
  rw [without, htake, dropMark_append hmem', hdrop]

/-- Where no text goes on after the aside, the document has the same tokens without it. -/
theorem read_without_of_endsAt {doc : Document} (h : read bs = .ok doc)
    (hends : ∀ t ∈ (a.before.map Prod.fst).getLast?, t.EndsAt a.rest) :
    read a.without = .ok doc := by
  obtain ⟨hfailure, -, hdoc⟩ := reads_of_read h
  obtain ⟨hcuts, -, hscan⟩ := a.cuts
  obtain ⟨front, hfront, hwithout⟩ := a.exists_front h
  obtain ⟨middle, last, hbefore, hafter, hevents⟩ := a.reads h
  obtain ⟨taken, htaken, hreplaced⟩ := hcuts.replace hends
  obtain rfl : front = taken := List.append_cancel_right (hfront.symm.trans htaken)
  have htokens : Token.tokens? (dropMark a.without) =
      some (a.before.map Prod.fst ++ a.after.map Prod.fst) := by
    rw [hwithout, hreplaced.tokens?_eq, Token.tokens?, hscan, hfailure]
    rfl
  rw [read_of_reads htokens (hbefore.trans hafter), ← hevents]
  exact hdoc

/-- Then there are no two texts around the aside. -/
theorem texts_of_endsAt (hends : ∀ t ∈ (a.before.map Prod.fst).getLast?, t.EndsAt a.rest) :
    a.textBefore = "" ∨ a.textAfter = "" := by
  unfold textBefore textAfter
  cases hlast : (a.before.map Prod.fst).getLast? with
  | none => exact .inl rfl
  | some t =>
    have ht := hends t hlast
    cases t with
    | text content =>
      refine .inr ?_
      cases hafter : a.after with
      | nil => rfl
      | cons next others =>
        obtain ⟨t', rest'⟩ := next
        obtain ⟨-, -, hscan⟩ := a.cuts
        have hnext : (Token.scan a.rest).tokens = [(t', rest')] ++ others := by
          rw [hscan]
          exact hafter
        obtain ⟨hcuts, -⟩ := Token.cuts_of_scan hnext
        cases t' with
        | text content' =>
          -- a text cannot start with markup
          obtain ⟨hrest, hne, hcontent, -⟩ := Token.cuts_text_iff.1 hcuts
          obtain ⟨b, more, rfl⟩ := List.exists_cons_of_ne_nil hne
          exact absurd (ht b (by rw [hrest]; rfl)) (hcontent b (List.mem_cons_self ..))
        | _ => rfl
    | _ => exact .inl rfl

/-- Where a text goes on after the aside, it is one with the text before the aside once the aside is
gone. -/
theorem exists_of_not_endsAt {doc : Document} (h : read bs = .ok doc)
    (hends : ¬∀ t ∈ (a.before.map Prod.fst).getLast?, t.EndsAt a.rest) :
    ∃ before after, a.eventsBefore = before ++ [.text a.textBefore] ∧
      a.eventsAfter = .text a.textAfter :: after ∧
        read a.without = ofEvents
          { events := before ++ .text (a.textBefore ++ a.textAfter) :: after, failure := none } := by
  push Not at hends
  obtain ⟨t, ht, hnot⟩ := hends
  obtain ⟨ts, hts⟩ := List.getLast?_eq_some_iff.1 ht
  cases t with
  | text content =>
    obtain ⟨hfailure, -, -⟩ := reads_of_read h
    obtain ⟨hcuts, -, hscan⟩ := a.cuts
    obtain ⟨front, hfront, hwithout⟩ := a.exists_front h
    obtain ⟨middle, last, hbefore, hafter, -⟩ := a.reads h
    obtain ⟨more, rest, hmore, hscanRest⟩ := Token.exists_text_of_not_endsAt hnot
    rw [hscan, hfailure] at hscanRest
    obtain ⟨hnext, hnone⟩ := Token.Scanned.mk.inj hscanRest
    -- the two texts are read for themselves
    rw [hts] at hbefore hcuts
    rw [hnext, List.map_cons, ← List.singleton_append] at hafter
    obtain ⟨before, own, reached, heventsBefore, hfirst, hown⟩ := hbefore.exists_of_append
    obtain ⟨s, hs, rfl, rfl⟩ := Event.Reads.text_iff.1 hown
    obtain ⟨own, after, reached, heventsAfter, hown, hothers⟩ := hafter.exists_of_append
    obtain ⟨t, ht, rfl, rfl⟩ := Event.Reads.text_iff.1 hown
    have htextBefore : a.textBefore = s := by
      rw [textBefore, hts, List.getLast?_concat]
      exact Token.string_text hs
    have htextAfter : a.textAfter = t := by
      rw [textAfter, hnext]
      exact Token.string_text ht
    refine ⟨before, after, by rw [heventsBefore, htextBefore],
      by rw [heventsAfter, htextAfter]; rfl, ?_⟩
    -- without the aside they are read as one
    obtain ⟨taken, htaken, hjoined⟩ := hcuts.join hmore
    obtain rfl : front = taken := List.append_cancel_right (hfront.symm.trans htaken)
    have htokens : Token.tokens? (dropMark a.without) =
        some (ts ++ [.text (content ++ more)] ++ (Token.scan rest).tokens.map Prod.fst) := by
      rw [hwithout, hjoined.tokens?_eq, Token.tokens?, ← hnone]
      rfl
    have hboth : Event.Reads reached [.text (content ++ more)] [.text (s ++ t)] reached :=
      Event.Reads.text_iff.2 ⟨s ++ t, Event.readText_append hs ht, rfl, rfl⟩
    rw [read_of_reads htokens ((hfirst.trans hboth).trans hothers), htextBefore, htextAfter,
      List.append_assoc]
    rfl
  | _ => exact absurd trivial hnot

end Aside

/-- Once a comment or an instruction inside the root is deleted, a document is accepted all the same.
It has the same elements, attributes and references as before. It has the same texts as well, exactly
if the deletion does not join two texts one of which was indentation by itself. -/
theorem read_without {bs : Bytes} {doc : Document} (h : read bs = .ok doc) (a : Aside bs) :
    ∃ doc', read a.without = .ok doc' ∧ doc'.root.withoutTexts = doc.root.withoutTexts ∧
      doc'.references = doc.references ∧
        (List.Forall₂ (fun x y => x.text = y.text) doc.root.subtree doc'.root.subtree ↔
          ¬a.Tears) := by
  by_cases hends : ∀ t ∈ (a.before.map Prod.fst).getLast?, t.EndsAt a.rest
  · refine ⟨doc, a.read_without_of_endsAt h hends, rfl, rfl, ?_⟩
    have htears : ¬a.Tears := by
      rintro ⟨hbefore, hafter, -, -⟩
      exact (a.texts_of_endsAt hends).elim hbefore hafter
    exact iff_of_true (List.forall₂_same.2 fun x _ => rfl) htears
  · obtain ⟨before, after, hbefore, hafter, hread⟩ := a.exists_of_not_endsAt h hends
    obtain ⟨-, -, hdoc⟩ := reads_of_read h
    obtain ⟨middle, last, -, -, hevents⟩ := a.reads h
    have hinside : 0 < Event.depth a.eventsBefore.reverse := a.inside
    rw [hevents, hbefore, hafter, List.append_assoc, List.singleton_append,
      ← List.reverse_reverse before] at hdoc
    rw [hbefore, List.reverse_append] at hinside
    rw [hread, Aside.Tears, hbefore, hafter, List.reverse_append]
    have hjoined := ofEvents_joined hdoc hinside
    rw [List.reverse_reverse] at hjoined
    exact hjoined

/-- A price with a comment in the middle of a text. -/
def netPrice : Bytes := Utf8.encode "<p><b>5</b> EUR <!-- net -->each</p>"

/-- The price as it is read. -/
def netPriceDocument : Document :=
  { root :=
      { name := "p"
        children := [.element { name := "b", children := [.text "5"] }, .text " EUR ", .text "each"] }
    references := [] }

/-- The comment, with its tokens around it. -/
def netPriceAside : Aside netPrice where
  before := (Token.scan netPrice).tokens.take 5
  token := .comment (Utf8.encode " net ")
  rest := Utf8.encode "each</p>"
  after := (Token.scan netPrice).tokens.drop 6
  scanned := by decide +kernel
  isAside := rfl
  inside := by decide +kernel

theorem read_without_netPrice :
    read netPrice = .ok netPriceDocument ∧
      netPriceAside.without = Utf8.encode "<p><b>5</b> EUR each</p>" ∧ ¬netPriceAside.Tears ∧
        ∃ doc', read (Utf8.encode "<p><b>5</b> EUR each</p>") = .ok doc' ∧
          List.Forall₂ (fun x y => x.text = y.text) netPriceDocument.root.subtree
            doc'.root.subtree := by
  have hread : read netPrice = .ok netPriceDocument := by decide +kernel
  have hwithout : netPriceAside.without = Utf8.encode "<p><b>5</b> EUR each</p>" := by
    decide +kernel
  have htears : ¬netPriceAside.Tears := by decide +kernel
  obtain ⟨doc', hdoc', -, -, htexts⟩ := read_without hread netPriceAside
  rw [hwithout] at hdoc'
  exact ⟨hread, hwithout, htears, doc', hdoc', htexts.2 htears⟩

/-- A price with a comment after the blank that stands between the number and the unit. -/
def tornPrice : Bytes := Utf8.encode "<p><b>5</b> <!-- price -->EUR</p>"

/-- The price as it is read: the blank is gone. -/
def tornPriceDocument : Document :=
  { root :=
      { name := "p", children := [.element { name := "b", children := [.text "5"] }, .text "EUR"] }
    references := [] }

/-- The price as it is read without the comment. -/
def wholePriceDocument : Document :=
  { root :=
      { name := "p", children := [.element { name := "b", children := [.text "5"] }, .text " EUR"] }
    references := [] }

/-- The comment, with its tokens around it. -/
def tornPriceAside : Aside tornPrice where
  before := (Token.scan tornPrice).tokens.take 5
  token := .comment (Utf8.encode " price ")
  rest := Utf8.encode "EUR</p>"
  after := (Token.scan tornPrice).tokens.drop 6
  scanned := by decide +kernel
  isAside := rfl
  inside := by decide +kernel

/-- So a comment may change the text of the element around it. -/
theorem not_read_without :
    ¬∀ (bs : Bytes) (doc : Document) (a : Aside bs), read bs = .ok doc →
      ∃ doc', read a.without = .ok doc' ∧
        List.Forall₂ (fun x y => x.text = y.text) doc.root.subtree doc'.root.subtree := by
  intro h
  have hread : read tornPrice = .ok tornPriceDocument := by decide +kernel
  have hwithout : read tornPriceAside.without = .ok wholePriceDocument := by decide +kernel
  obtain ⟨doc', hdoc', htexts⟩ := h tornPrice tornPriceDocument tornPriceAside hread
  obtain rfl := Except.ok.inj (hwithout.symm.trans hdoc')
  revert htexts
  decide +kernel

end Document

end SoapMtom.Xml
