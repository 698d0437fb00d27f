import SoapMtom.Proofs.Outcome
import SoapMtom.Proofs.Xml.Agreement
import SoapMtom.Proofs.Xml.Received
import SoapMtom.Proofs.Xml.Tokens
import SoapMtom.Xml.Document

/-!
# Reading token by token

`Document.read` reads all events and builds the tree from them. A `Reader` does both at once, token
by token, so that what is read of one piece of markup can be put together with what is read of the
next. Reading markup piece by piece, each text goes on with the text before it. Main statements:

> `Document.read_of_take`: a document is what is built once all its tokens are taken in.
>
> `Reader.foldlM_take`: the tokens of markup, texts joined, lead where its pieces lead.
-/

namespace SoapMtom.Xml

/-- Where the reading of a document stands. -/
structure Reader where
  scopes : Scopes := .initial
  builder : Builder := {}

namespace Reader

/-- Takes in one token. The places that messages tell are left out. -/
def take (r : Reader) (t : Token) : Except Malformed Reader := do
  let (events, scopes) ← Event.ofToken 0 r.scopes t []
  let builder ← events.foldlM Builder.step r.builder
  pure { scopes, builder }

/-- A token is taken in when its events can be read and fit into the tree. -/
theorem take_eq_ok {r r' : Reader} {t : Token} :
    r.take t = .ok r' ↔ ∃ events, Event.ofToken 0 r.scopes t [] = .ok (events, r'.scopes) ∧
      events.foldlM Builder.step r.builder = .ok r'.builder := by
  rw [take, bind_eq_ok]
  constructor
  · rintro ⟨⟨events, scopes⟩, hevents, h⟩
    obtain ⟨builder, hbuilder, h⟩ := bind_eq_ok.1 h
    cases h
    exact ⟨events, hevents, hbuilder⟩
  · rintro ⟨events, hevents, hbuilder⟩
    exact ⟨_, hevents, bind_eq_ok.2 ⟨_, hbuilder, rfl⟩⟩

/-- Where a token leads once its events are read. -/
theorem take_eq_map {r : Reader} {t : Token} {events : List Event} {scopes : Scopes}
    (h : Event.ofToken 0 r.scopes t [] = .ok (events, scopes)) :
    r.take t = (events.foldlM Builder.step r.builder).map fun builder => { scopes, builder } := by
  rw [take, h]
  show (do let builder ← events.foldlM Builder.step r.builder; pure _) = _
  cases events.foldlM Builder.step r.builder <;> rfl

end Reader

/-! ## The reader reads documents -/

/-- Places make no difference to a token that can be read. -/
theorem Event.ofToken_of_eq_ok {total : Nat} {scopes : Scopes} {t : Token} {rest : Bytes}
    {x : List Event × Scopes} (h : ofToken total scopes t rest = .ok x) (total' : Nat)
    (rest' : Bytes) : ofToken total' scopes t rest' = .ok x := by
  cases t with
  | start tag | empty tag =>
    rw [ofToken, bind_eq_ok] at h ⊢
    obtain ⟨bindings, hb, h⟩ := h
    exact ⟨bindings, mapError_eq_ok.2 (mapError_eq_ok.1 hb), h⟩
  | stop tag =>
    rw [ofToken] at h ⊢
    split at h
    · cases h
    · split at h
      · next hname => rw [if_pos hname]; exact h
      · cases h
  | text content | cdata content | comment content | instruction content | doctype => exact h

/-- A tag starts an element, with the attributes that declare nothing. -/
theorem Event.exists_start_of_readStart {bindings : Bindings} {tag : Bytes} {event : Event}
    (h : readStart bindings tag = .ok event) :
    ∃ ns name attributes, event = .start ns name attributes ∧
      ((tagAttributes true tag).attributes.filter (!isDeclaration ·)).mapM
        (readAttribute bindings name) = .ok attributes := by
  rw [readStart] at h
  obtain ⟨ns, -, h⟩ := bind_eq_ok.1 h
  obtain ⟨name, -, h⟩ := bind_eq_ok.1 h
  obtain ⟨attributes, hattributes, h⟩ := bind_eq_ok.1 h
  split at h
  · cases h
  · cases h
    exact ⟨ns, name, attributes, rfl, hattributes⟩

theorem Reader.ofTokensFrom_of_take {tokens : List (Token × Bytes)} {r r' : Reader}
    (h : (tokens.map Prod.fst).foldlM take r = .ok r') (total : Nat) :
    (Event.ofTokensFrom total r.scopes none tokens).failure = none ∧
      (Event.ofTokensFrom total r.scopes none tokens).events.foldlM Builder.step r.builder =
        .ok r'.builder := by
  induction tokens generalizing r with
  | nil =>
    cases h
    exact ⟨rfl, rfl⟩
  | cons t tokens ih =>
    obtain ⟨t, rest⟩ := t
    rw [List.map_cons, List.foldlM_cons] at h
    obtain ⟨middle, ht, h⟩ := bind_eq_ok.1 h
    obtain ⟨events, hevents, hb⟩ := take_eq_ok.1 ht
    -- what the rest leads to starts from the reader in the middle
    obtain ⟨hfailure, hrest⟩ := ih h
    rw [Event.ofTokensFrom, Event.ofToken_of_eq_ok hevents]
    refine ⟨hfailure, ?_⟩
    show (events ++ _).foldlM Builder.step r.builder = _
    rw [List.foldlM_append, hb]
    exact hrest

/-- A document is what is built once all its tokens are taken in. -/
theorem Document.read_of_take {bs : Bytes} {tokens : List Token} {r : Reader}
    (hmark : dropMark bs = bs) (htokens : Token.tokens? bs = some tokens)
    (h : tokens.foldlM Reader.take {} = .ok r) : read bs = r.builder.finish := by
  unfold Token.tokens? at htokens
  split at htokens
  · next hscan =>
    obtain rfl := Option.some.inj htokens
    obtain ⟨hfailure, hbuilder⟩ := Reader.ofTokensFrom_of_take h bs.length
    have hread : Event.ofTokens bs.length (Token.scan bs) =
        Event.ofTokensFrom bs.length .initial none (Token.scan bs).tokens := by
      rw [Event.ofTokens, hscan]
    rw [read, hmark]
    show ofEvents (Event.ofTokens bs.length (Token.scan bs)) = _
    rw [hread, ofEvents, hbuilder]
    dsimp only [bind, Except.bind]
    rw [hfailure]
  · cases htokens

/-! ## Reading markup piece by piece -/

namespace Reader

/-- Takes in a text that may go on with the one before it. -/
def takeText (r : Reader) (s : String) : Except Malformed Reader :=
  match r.builder.frames with
  | f :: outer =>
    let f := { f with children := Node.join f.children (.text s) }
    .ok { r with builder := { r.builder with frames := f :: outer } }
  | [] => if Text.isBlankText s then .ok r else .error .textOutsideRoot

/-- Takes in one piece of markup. -/
def takeMarkup (r : Reader) : Markup → Except Malformed Reader
  | .text s => r.takeText s
  | m => r.take m.token

/-- A text can be taken in two parts. -/
theorem takeText_append (r : Reader) (s t : String) :
    (r.takeText s).bind (takeText · t) = r.takeText (s ++ t) := by
  unfold takeText
  -- inside an element texts are joined; outside only blanks are let through
  cases hframes : r.builder.frames with
  | cons f outer =>
    show Except.ok _ = _
    rw [Node.join_join]
  | nil =>
    rw [Text.isBlankText_append]
    cases Text.isBlankText s with
    | true =>
      show (match r.builder.frames with | f :: outer => _ | [] => _) = _
      rw [hframes]
      rfl
    | false => rfl

theorem takeText_empty (r : Reader) : r.takeText "" = .ok r := by
  unfold takeText
  split
  · next f outer hframes =>
    simp only [Node.join_empty]
    rw [← hframes]
  · rfl

private theorem foldlM_consText (r : Reader) (s : String) (ms : List Markup) :
    (Markup.consText s ms).foldlM takeMarkup r =
      (r.takeText s).bind fun r => ms.foldlM takeMarkup r := by
  unfold Markup.consText
  split
  · next t rest =>
    rw [List.foldlM_cons]
    show (r.takeText (s ++ t)).bind _ = _
    rw [← takeText_append]
    cases r.takeText s with
    | error e => rfl
    | ok r => rfl
  · split
    · next hs =>
      rw [hs, takeText_empty]
      rfl
    · rfl

/-- Joining texts changes nothing for a reader that joins them itself. -/
theorem foldlM_joinTexts (r : Reader) (ms : List Markup) :
    (Markup.joinTexts ms).foldlM takeMarkup r = ms.foldlM takeMarkup r := by
  induction ms generalizing r with
  | nil => rfl
  | cons m ms ih =>
    cases m with
    | text s =>
      rw [Markup.joinTexts, foldlM_consText, List.foldlM_cons]
      simp only [ih]
      rfl
    | declaration | start | empty | stop =>
      show (_ :: Markup.joinTexts ms).foldlM takeMarkup r = _
      rw [List.foldlM_cons, List.foldlM_cons]
      simp only [ih]

/-! ## No text to go on with -/

/-- The last node that was read is no text. -/
def Fresh (r : Reader) : Prop :=
  ∀ f outer, r.builder.frames = f :: outer → ∀ s, f.children.head? ≠ some (.text s)

/-- An element that is complete is no text. -/
private theorem text?_of_nodeOf {frames : List Frame} {references references' : List Reference}
    {e : Element} {n : Node} (h : Builder.nodeOf frames references e = .ok (n, references')) :
    n.text? = none := by
  unfold Builder.nodeOf at h
  split at h
  · split at h
    · cases h
    · cases h
      rfl
  · cases h
    rfl

private theorem fresh_of_complete {b b' : Builder} {frames : List Frame} {e : Element}
    (h : b.complete frames e = .ok b') (scopes : Scopes) : Fresh { scopes, builder := b' } := by
  unfold Builder.complete at h
  split at h
  · split at h
    · cases h
    · cases h
      intro f outer hframes
      cases hframes
  · next g outer =>
    split at h
    · cases h
    · next n references hn =>
      cases h
      intro f outer' hframes s
      obtain ⟨rfl, rfl⟩ := List.cons.inj hframes
      intro hhead
      have htext := text?_of_nodeOf hn
      rw [Option.some.inj hhead] at htext
      cases htext

private theorem fresh_of_stop {b b' : Builder} (h : b.step .stop = .ok b') (scopes : Scopes) :
    Fresh { scopes, builder := b' } := by
  unfold Builder.step at h
  dsimp only at h
  split at h
  · next hframes =>
    cases h
    intro f outer hf
    rw [hframes] at hf
    cases hf
  · exact fresh_of_complete h scopes

private theorem fresh_of_start {b b' : Builder} {ns name : String} {attributes : List Attribute}
    (h : b.step (.start ns name attributes) = .ok b') (scopes : Scopes) :
    Fresh { scopes, builder := b' } := by
  cases h
  intro f outer hf s hhead
  obtain ⟨rfl, -⟩ := List.cons.inj hf
  cases hhead

/-- After a tag no text is left to go on with. -/
theorem fresh_of_take {r r' : Reader} {m : Markup} (hm : ∀ s, m ≠ .text s)
    (hd : m ≠ .declaration) (h : r.take m.token = .ok r') : r'.Fresh := by
  obtain ⟨events, hevents, hbuilder⟩ := take_eq_ok.1 h
  cases m with
  | text s => exact absurd rfl (hm s)
  | declaration => exact absurd rfl hd
  | start name attributes =>
    rw [Markup.token, Event.ofToken] at hevents
    obtain ⟨bindings, -, hevents⟩ := bind_eq_ok.1 hevents
    obtain ⟨event, hstart, hevents⟩ := bind_eq_ok.1 hevents
    obtain ⟨ns, name, attributes, rfl, -⟩ := Event.exists_start_of_readStart hstart
    obtain ⟨rfl, -⟩ := Prod.mk.inj (Except.ok.inj hevents)
    obtain ⟨b, hb, hnil⟩ := bind_eq_ok.1 hbuilder
    cases hnil
    exact fresh_of_start hb r'.scopes
  | empty name attributes =>
    rw [Markup.token, Event.ofToken] at hevents
    obtain ⟨bindings, -, hevents⟩ := bind_eq_ok.1 hevents
    obtain ⟨event, -, hevents⟩ := bind_eq_ok.1 hevents
    obtain ⟨rfl, -⟩ := Prod.mk.inj (Except.ok.inj hevents)
    obtain ⟨b, -, hbuilder⟩ := bind_eq_ok.1 hbuilder
    obtain ⟨b', hb', hnil⟩ := bind_eq_ok.1 hbuilder
    cases hnil
    exact fresh_of_stop hb' r'.scopes
  | stop name =>
    rw [Markup.token, Event.ofToken] at hevents
    split at hevents
    · cases hevents
    · split at hevents
      · obtain ⟨rfl, -⟩ := Prod.mk.inj (Except.ok.inj hevents)
        obtain ⟨b, hb, hnil⟩ := bind_eq_ok.1 hbuilder
        cases hnil
        exact fresh_of_stop hb r'.scopes
      · cases hevents

/-- Where there is no text to go on with, a text is taken in like any other token. -/
private theorem take_text {r : Reader} (hr : r.Fresh) {s : String} (hs : s ≠ "") :
    r.take (Markup.text s).token = r.takeText s := by
  have htoken : Event.ofToken 0 r.scopes (Markup.text s).token [] = .ok ([.text s], r.scopes) := by
    rw [Markup.token, Event.ofToken, Event.readText_escape]
    rfl
  have hempty : s.isEmpty = false := by
    simpa using hs
  rw [take_eq_map htoken, List.foldlM_cons, Builder.step, hempty, takeText]
  cases hframes : r.builder.frames with
  | nil => cases Text.isBlankText s <;> rfl
  | cons f outer =>
    dsimp only
    rw [Node.join_text_of_head (hr f outer hframes), if_neg hs]
    rfl

/-- The tokens of markup without texts to join lead where its pieces lead. -/
private theorem foldlM_take_of_separated {ms : List Markup} (hs : Markup.Separated ms)
    (hd : .declaration ∉ ms) {r : Reader} (hr : ∀ s, ms.head? = some (.text s) → r.Fresh) :
    (ms.map Markup.token).foldlM take r = ms.foldlM takeMarkup r := by
  induction ms generalizing r with
  | nil => rfl
  | cons m ms ih =>
    rw [List.mem_cons, not_or] at hd
    rw [List.map_cons, List.foldlM_cons, List.foldlM_cons]
    cases m with
    | declaration => exact absurd rfl hd.1
    | text s =>
      obtain ⟨hne, hhead, hs⟩ := hs
      rw [take_text (hr s rfl) hne]
      show (r.takeText s).bind _ = (r.takeText s).bind _
      cases r.takeText s with
      | error e => rfl
      | ok r' => exact ih hs hd.2 fun t ht => absurd ht (hhead t)
    | start name attributes | empty name attributes | stop name =>
      show (r.take _).bind _ = (r.take _).bind _
      cases h : r.take _ with
      | error e => rfl
      | ok r' => exact ih hs hd.2 fun _ _ => fresh_of_take (by simp) (by simp) h

/-- The tokens of markup, texts joined, lead where its pieces lead. -/
theorem foldlM_take {ms : List Markup} (hd : .declaration ∉ ms) {r : Reader} (hr : r.Fresh) :
    ((Markup.joinTexts ms).map Markup.token).foldlM take r = ms.foldlM takeMarkup r := by
  rw [foldlM_take_of_separated (Markup.separated_joinTexts ms) ?_ fun _ _ => hr, foldlM_joinTexts]
  exact fun h => hd (Markup.declaration_mem_joinTexts h)

end Reader

end SoapMtom.Xml
