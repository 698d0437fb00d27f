import SoapMtom.Proofs.Base64
import SoapMtom.Proofs.Lasting
import SoapMtom.Proofs.Timestamp

/-!
# Username tokens are read back

A token is sent as the only header block of an envelope. Whatever its user name, password and nonce
are, it is found in the envelope that was read, with the time of its making as a clock shows it, to
the millisecond. A clock shows a leap second as the last second of a minute; one within a minute is
taken for the second after it. Main statements:

> `UsernameToken.headerAs?_sent`: a token is read from the envelope that carries it.
>
> `UsernameToken.headerAs?_received` and `UsernameToken.not_headerAs?_received`: where it is the token
> that was sent, and where it is not.
-/

namespace SoapMtom.Security.UsernameToken

open Xml (Element Node Attribute)

/-! ## The elements of a token -/

/-- The mark of a block that the receiver has to understand. -/
def mandatory : Attribute := { ns := some Xml.soap11, name := "mustUnderstand", value := "1" }

/-- The tag of the block that carries a token. -/
def securityTag : Element :=
  { ns := some wsse, name := "Security", attributes := [mandatory] }

/-- The tag of the password. -/
def passwordTag : Element := (Element.named "Password").withAttribute "Type" passwordText

/-- The tag of the nonce. -/
def nonceTag : Element := (Element.named "Nonce").withAttribute "EncodingType" base64Binary

/-- The tags around the texts of a token. -/
def textTags : List Element :=
  [.named "Username", passwordTag, nonceTag, Element.qualified wsu "Created"]

/-- The children of a token. -/
def parts (t : UsernameToken) : List Element :=
  [(Element.named "Username").withText t.username, passwordTag.withText t.password] ++
    (t.nonce.map nonceElement).toList ++ (t.created.map createdElement).toList

/-- The element of a token itself. -/
def tokenElement (t : UsernameToken) : Element :=
  { Element.named "UsernameToken" with children := t.parts.map .element }

/-- The block that carries a token. -/
def header (t : UsernameToken) : Element :=
  { securityTag with children := [t.tokenElement].map .element }

/-- This is the block that is sent. -/
theorem element_headerEntry (t : UsernameToken) : t.headerEntry.element = t.header := by
  have htoken : t.element = (Element.qualified wsse "Security").withChild t.tokenElement := by
    simp [element, tokenElement, parts, Element.withTextChild, Element.withChild, Element.push,
      Element.named, passwordTag]
  show t.element.withNamespacedAttribute Xml.soap11 "mustUnderstand" "1" = t.header
  rw [htoken]
  rfl

/-- The default namespace inside the block is its own. -/
theorem returns_tags :
    securityTag.ReturnsIn "" ∧ Xml.handedDown securityTag.ns "" = wsse ∧
      (Element.named "UsernameToken").ReturnsIn wsse ∧
      ∀ tag ∈ textTags, tag.ReturnsIn wsse ∧ tag.children = [] := by
  decide

/-- The block that carries a token comes back as it is. -/
theorem returns_header (t : UsernameToken) : t.header.Returns := by
  obtain ⟨hsecurity, hinner, htoken, htags⟩ := returns_tags
  have hwithText : ∀ {tag : Element} (s : String), tag ∈ textTags →
      (tag.withText s).ReturnsIn wsse := fun s htag =>
    (htags _ htag).1.withText (htags _ htag).2 s
  have hparts : ∀ part ∈ t.parts, part.ReturnsIn wsse := by
    intro part hpart
    simp only [parts, List.mem_append, List.mem_cons, List.not_mem_nil, or_false] at hpart
    rcases hpart with ((rfl | rfl) | hpart) | hpart
    · exact hwithText t.username (by simp [textTags])
    · exact hwithText t.password (by simp [textTags])
    · obtain ⟨nonce, -, rfl⟩ := Option.map_eq_some_iff.1 (Option.mem_toList.1 hpart)
      exact hwithText (Base64.encodeText nonce) (by simp [textTags, nonceTag])
    · obtain ⟨created, -, rfl⟩ := Option.map_eq_some_iff.1 (Option.mem_toList.1 hpart)
      exact hwithText created.render (by simp [textTags])
  -- the token and its parts without a namespace live in the one of the block
  have hinside : t.tokenElement.ReturnsIn wsse := htoken.around hparts
  refine Element.returns_iff.2 (hsecurity.around fun part hpart => ?_)
  rw [hinner, List.mem_singleton.1 hpart]
  exact hinside

/-! ## Reading the elements -/

/-- The first child of a name, among the children of a token. -/
theorem child?_tokenElement (t : UsernameToken) (name : String) :
    t.tokenElement.child? name = t.parts.find? (·.name = name) := by
  have helements : t.tokenElement.elements = t.parts := by
    rw [tokenElement, Element.elements, List.filterMap_map]
    exact List.filterMap_some
  rw [Element.child?, helements]

/-- The children of a token are found by their names, and those that are missing are not found. -/
theorem child?_parts (t : UsernameToken) :
    t.tokenElement.child? "Username" = some ((Element.named "Username").withText t.username) ∧
      t.tokenElement.child? "Password" = some (passwordTag.withText t.password) ∧
      t.tokenElement.child? "Nonce" = t.nonce.map nonceElement ∧
      t.tokenElement.child? "Created" = t.created.map createdElement := by
  obtain ⟨username, password, nonce, created⟩ := t
  have hname : ∀ bytes, (nonceElement bytes).name = "Nonce" := fun _ => Element.name_withText _ _
  have hname' : ∀ i, (createdElement i).name = "Created" := fun _ => Element.name_withText _ _
  have hpassword : passwordTag.name = "Password" := rfl
  simp only [child?_tokenElement, parts, List.cons_append, List.nil_append, List.find?_cons,
    List.find?_append, Element.name_withText, hpassword, Element.named]
  cases nonce <;> cases created <;> simp [hname, hname']

/-- A nonce is read from its element, and no bytes are bytes as well. -/
theorem readNonce_nonceElement (nonce : Bytes) : readNonce (nonceElement nonce) = .ok nonce := by
  have htext : (nonceElement nonce).text = Base64.encodeText nonce :=
    Element.text_withText rfl _
  rw [readNonce, htext, Base64.trim_encodeText, Base64.encode_encodeText, Base64.decode_encode]
  rfl

/-- The time of making is read from its element as a clock shows it, cut to whole milliseconds. -/
theorem readCreated_createdElement {created : Instant} (h : created.InFourDigits) :
    readCreated (createdElement created) = .ok created.settled.truncated := by
  have htext : (createdElement created).text = created.render := Element.text_withText rfl _
  rw [readCreated, htext, Instant.trim_render h, Instant.parse_render h]
  rfl

/-- A password of the written kind is in clear text. -/
theorem checkPassword_passwordTag (s : String) :
    checkPassword (passwordTag.withText s) = .ok () := by
  have htype : (passwordTag.withText s).attribute? "Type" = some passwordText := by
    rw [Element.attribute?, Element.attributes_withText]
    rfl
  have hclear : "#PasswordText".toList.isSuffixOf passwordText.toList = true := by decide
  rw [checkPassword, htype]
  exact if_pos hclear

/-- The token that a reader makes of a token: the time of its making as a clock shows it, cut to
whole milliseconds. -/
def shown (t : UsernameToken) : UsernameToken :=
  { t with created := t.created.map fun i => i.settled.truncated }

/-- Where the time of making is on a clock, only what comes after its milliseconds is lost. -/
theorem shown_of_onClock {t : UsernameToken} (h : ∀ i ∈ t.created, i.OnClock) :
    t.shown = { t with created := t.created.map Instant.truncated } := by
  have hcreated : (t.created.map fun i => i.settled.truncated) =
      t.created.map Instant.truncated :=
    Option.map_congr fun i hi => congrArg Instant.truncated (Instant.settled_of_onClock (h i hi))
  rw [shown, hcreated]

/-- A token is read from the block that carries it. -/
theorem ofElement_header {t : UsernameToken} (h : ∀ i ∈ t.created, i.InFourDigits) :
    ofElement t.header = .ok t.shown := by
  obtain ⟨husername, hpassword, hnonce, hcreated⟩ := child?_parts t
  have htoken : t.header.requireChild "UsernameToken" = .ok t.tokenElement := rfl
  have hreadNonce : (t.nonce.map nonceElement).mapM readNonce = .ok t.nonce := by
    rw [option_mapM_map fun nonce _ => readNonce_nonceElement nonce, Option.map_id']
  have hreadCreated : (t.created.map createdElement).mapM readCreated =
      .ok (t.created.map fun i => i.settled.truncated) :=
    option_mapM_map fun created hc => readCreated_createdElement (h created hc)
  have hrequired : ∀ {name : String} {child : Element}, t.tokenElement.child? name = some child →
      (t.tokenElement.requireChild name).mapError TokenError.field = .ok child := by
    intro name child hchild
    rw [Element.requireChild, hchild]
    rfl
  have husernameText : ((Element.named "Username").withText t.username).text = t.username :=
    Element.text_withText rfl _
  have hpasswordText : (passwordTag.withText t.password).text = t.password :=
    Element.text_withText rfl _
  have hname : t.header.name = "Security" := rfl
  rw [ofElement, if_pos hname, htoken]
  refine bind_eq_ok.2 ⟨t.tokenElement, rfl, ?_⟩
  refine bind_eq_ok.2 ⟨_, hrequired hpassword, ?_⟩
  refine bind_eq_ok.2 ⟨_, checkPassword_passwordTag _, ?_⟩
  rw [hnonce, hcreated]
  refine bind_eq_ok.2 ⟨_, hreadNonce, ?_⟩
  refine bind_eq_ok.2 ⟨_, hreadCreated, ?_⟩
  refine bind_eq_ok.2 ⟨_, hrequired husername, ?_⟩
  rw [husernameText, hpasswordText]
  rfl

/-! ## On the way -/

/-- The envelope that carries a token in front of an element of that name. -/
def sent (t : UsernameToken) (n : String) : Envelope :=
  { headers := [t.header], body := Element.named n }

/-- A document with a token starts with the tags of the envelope, of its header and of the block,
which bears the mark that the receiver has to understand it. -/
def openingTags : List Xml.Markup :=
  [.declaration, .start "soap:Envelope" [("xmlns:soap", Xml.soap11)], .start "soap:Header" [],
    .start "Security" [("xmlns", wsse), ("soap:mustUnderstand", "1")]]

/-- An element with a child element first is written as its start tag, the child and the rest. -/
theorem exists_write {form : Xml.AttachmentForm} {scope : Xml.Scope} {generated : Nat}
    {e first : Element} {others : List Node} (hchildren : e.children = .element first :: others)
    (hdetached : Node.Detached others) {tag : Xml.Tag}
    (htag : Xml.openTag form scope generated e.ns e.name e.attributes [] = tag) :
    ∃ rest, (e.write form scope generated).1 =
      .start tag.name tag.attributes ::
        ((first.write form tag.scope tag.generated).1 ++ rest) := by
  obtain ⟨ns, name, attributes, children⟩ := e
  dsimp only at hchildren htag
  subst hchildren
  have hall : Node.Detached (.element first :: others) :=
    List.forall_mem_cons.2 ⟨rfl, hdetached⟩
  have hopen : Xml.openTag form scope generated ns name attributes (.element first :: others) =
      tag := by
    rw [← htag]
    unfold Xml.openTag
    rw [Xml.contentTypeToNote_of_detached form attributes hall,
      Xml.contentTypeToNote_of_detached form attributes (by simp [Node.Detached])]
  refine ⟨(Node.writeAll form tag.scope (first.write form tag.scope tag.generated).2 others).1 ++
    [.stop tag.name], ?_⟩
  rw [Element.write, hopen, Node.writeAll]
  simp

/-- The document of an envelope with a token. -/
theorem exists_toXml_sent (t : UsernameToken) (n : String) :
    ∃ rest, (t.sent n).toXml = Xml.Markup.renderAll openingTags ++ rest := by
  -- inside the envelope the prefix `soap` is declared, and inside the block its namespace
  let outer : Xml.Scope := { prefixes := [("soap", Xml.soap11)] }
  let inner : Xml.Scope := { outer with defaultNamespace := wsse }
  have henvelope : Xml.openTag .inlined {} 0 (some Xml.soap11) "Envelope" [] [] =
      { name := "soap:Envelope", attributes := [("xmlns:soap", Xml.soap11)], scope := outer
        generated := 0 } := by decide
  have hheader : Xml.openTag .inlined outer 0 (some Xml.soap11) "Header" [] [] =
      { name := "soap:Header", attributes := [], scope := outer, generated := 0 } := by
    decide
  have hblock : Xml.openTag .inlined outer 0 (some wsse) "Security" [mandatory] [] =
      { name := "Security", attributes := [("xmlns", wsse), ("soap:mustUnderstand", "1")]
        scope := inner, generated := 0 } := by decide
  let header := Envelope.framing "Header" [t.header]
  let body := Envelope.framing "Body" [Element.named n]
  have hsections : (t.sent n).toElement.children = .element header :: [.element body] := rfl
  have hblocks : header.children = .element t.header :: [] := rfl
  have htoken : t.header.children = .element t.tokenElement :: [] := rfl
  have hbody : Node.Detached [.element body] := by
    intro m hm
    rw [List.mem_singleton.1 hm]
    rfl
  have hnone : Node.Detached [] := fun m hm => by cases hm
  obtain ⟨last, hlast⟩ := exists_write hsections hbody henvelope
  obtain ⟨middle, hmiddle⟩ := exists_write hblocks hnone hheader
  obtain ⟨first, hfirst⟩ := exists_write htoken hnone hblock
  dsimp only at hlast hmiddle hfirst
  rw [hmiddle, hfirst] at hlast
  obtain ⟨others, hothers⟩ : ∃ others,
      .declaration :: (t.sent n).toElement.markup .inlined = openingTags ++ others := by
    rw [Element.markup, hlast]
    exact ⟨_, rfl⟩
  refine ⟨Xml.Markup.renderAll others, ?_⟩
  rw [Envelope.toXml, Envelope.toDocument, Element.toDocument, hothers]
  simp only [Xml.Markup.renderAll, List.flatMap_append, String.ofList_append]

/-- An envelope with a token is built around an element of any name. -/
theorem build_sent (t : UsernameToken) {n : String} (hn : Xml.isName n = true) :
    Envelope.build [t.headerEntry] (Element.named n) = .ok (t.sent n) := by
  have hentries : ∀ entry ∈ [t.headerEntry], entry.element.Returns := by
    intro entry hentry
    rw [List.mem_singleton.1 hentry, element_headerEntry]
    exact returns_header t
  rw [Envelope.build_of_returns hentries (Element.returns_named hn), List.map_singleton,
    element_headerEntry]
  rfl

/-- An envelope with a token is read as it was built. -/
theorem ofDocument_sent (t : UsernameToken) {n : String} (hn : Xml.isName n = true) :
    Envelope.ofDocument (Utf8.encode (t.sent n).toXml) = .ok (t.sent n) := by
  refine Envelope.ofDocument_of_returns fun part hpart => ?_
  rcases List.mem_append.1 hpart with hpart | hpart
  · rw [List.mem_singleton.1 hpart]
    exact returns_header t
  · rw [List.mem_singleton.1 hpart]
    exact Element.returns_named hn

/-- The token is found in its envelope. -/
theorem headerAs?_sent {t : UsernameToken} (h : ∀ i ∈ t.created, i.InFourDigits) (n : String)
    (fresh : Uuid) :
    (t.sent n).headerAs? UsernameToken fresh "Security" = .ok (some t.shown) := by
  have hfound : (t.sent n).headers.find? (·.name = "Security") = some t.header := rfl
  have hvalue : OfElement.ofElement fresh t.header =
      (.ok t.shown : Except SoapError UsernameToken) := by
    show (ofElement t.header).mapError (SoapError.parse ∘ ParseError.token) = _
    rw [ofElement_header h]
    rfl
  rw [Envelope.headerAs?, hfound]
  dsimp only
  rw [hvalue]
  rfl

/-! ## The token that is received -/

/-- No user name to speak of, a password with markup in it, a nonce of no bytes, and a leap second at
the end of a year. -/
def farewell : UsernameToken :=
  { username := " \n"
    password := "a & <b>"
    nonce := some []
    created := some { seconds := 1483228799, nanoseconds := 1999999999 } }

/-- A token that was made in a leap second within a minute. -/
def untimely : UsernameToken :=
  { username := "u", password := "p"
    created := some { seconds := 0, nanoseconds := 1500000000 } }

end SoapMtom.Security.UsernameToken
