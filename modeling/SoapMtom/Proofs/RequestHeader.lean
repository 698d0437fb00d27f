import Mathlib.Data.List.Nodup
import SoapMtom.Proofs.Http
import SoapMtom.Proofs.MultipartRoundTrip
import SoapMtom.Proofs.Text.ByteOrder

/-!
# Which fields a request has

The library sets three fields, and the settings set theirs on top, one after another. Names that
differ in case only are one field, but two entries of the settings; the last of them stays, and that
is the greatest, because the entries of the settings rise. Main statement:

> `Client.encodeRequest_fields`: the names and values of a request, and when there is one.
-/

namespace SoapMtom

/-! ## Names -/

namespace Http.Headers

/-- The names of the fields. -/
def names (headers : Headers) : List String := headers.map (·.1)

/-- A name is there already, or comes last. -/
theorem names_insert (headers : Headers) (name : String) (value : Bytes) :
    (headers.insert name value).names =
      if name ∈ headers.names then headers.names else headers.names ++ [name] := by
  induction headers with
  | nil => simp [insert, names]
  | cons field rest ih =>
    obtain ⟨other, old⟩ := field
    rw [insert]
    by_cases h : other = name
    · rw [if_pos h, h]
      simp [names]
    · have hname : name ∈ names ((other, old) :: rest) ↔ name ∈ names rest := by
        simp [names, Ne.symm h]
      rw [if_neg h]
      show other :: names (insert rest name value) = _
      rw [ih]
      simp only [hname]
      split <;> rfl

theorem mem_names_insert {headers : Headers} {name other : String} {value : Bytes} :
    other ∈ (headers.insert name value).names ↔ other ∈ headers.names ∨ other = name := by
  rw [names_insert]
  split
  · next h =>
    constructor
    · exact .inl
    · rintro (hother | rfl)
      · exact hother
      · exact h
  · rw [List.mem_append, List.mem_singleton]

/-- No step gives a header one name twice. -/
theorem nodup_names_insert {headers : Headers} (h : headers.names.Nodup) (name : String)
    (value : Bytes) : (headers.insert name value).names.Nodup := by
  rw [names_insert]
  split
  · exact h
  · next hnew =>
    rw [← List.concat_eq_append]
    exact h.concat hnew

/-- The fields of texts have the texts as their values. -/
theorem get?_map_encode (fields : List (String × String)) (name : String) :
    get? (fields.map fun field => (field.1, Utf8.encode field.2)) name =
      (fields.lookup name).map Utf8.encode := by
  induction fields with
  | nil => rfl
  | cons field fields ih =>
    obtain ⟨other, s⟩ := field
    rw [List.map_cons, get?_cons, List.lookup_cons, ih]
    by_cases h : name = other
    · rw [if_pos h, beq_iff_eq.2 h]
      rfl
    · rw [if_neg h, beq_false_of_ne h]

end Http.Headers

/-! ## Entries of the settings, one after another -/

namespace Config

/-- Names stay distinct. -/
theorem nodup_names_foldl_put (entries : List (String × String)) {headers : Http.Headers}
    (h : headers.names.Nodup) : (entries.foldl put headers).names.Nodup := by
  induction entries generalizing headers with
  | nil => exact h
  | cons entry entries ih => exact ih (Http.Headers.nodup_names_insert h _ _)

/-- Each entry adds its name, and no other names are added. -/
theorem mem_names_foldl_put {entries : List (String × String)} {headers : Http.Headers}
    {name : String} :
    name ∈ (entries.foldl put headers).names ↔
      name ∈ headers.names ∨ ∃ entry ∈ entries, Text.lower entry.1 = name := by
  induction entries generalizing headers with
  | nil => simp
  | cons entry entries ih =>
    rw [List.foldl_cons, ih, put, Http.Headers.mem_names_insert, List.exists_mem_cons_iff, or_assoc,
      eq_comm (a := name)]

/-- Of the entries that set one field the last stays. -/
theorem get?_foldl_put_of_last {before after : List (String × String)} {entry : String × String}
    (h : ∀ other ∈ after, Text.lower other.1 ≠ Text.lower entry.1) (headers : Http.Headers) :
    ((before ++ entry :: after).foldl put headers).get? (Text.lower entry.1) =
      some (Utf8.encode entry.2) := by
  rw [List.foldl_append, List.foldl_cons, get?_foldl_put_of_ne h, put,
    Http.Headers.get?_insert_self]

/-- The entry of the settings that decides about a field: of those that name it, in whatever case,
it has the name that comes last in the order of bytes. -/
structure Decides (c : Config) (name : String) (entry : String × String) : Prop where
  mem : entry ∈ c.httpHeaders.entries
  named : Text.lower entry.1 = Text.lower name
  greatest : ∀ other ∈ c.httpHeaders.entries, Text.lower other.1 = Text.lower name →
    Utf8.encode other.1 ≤ Utf8.encode entry.1

/-- There is one such entry at most. -/
theorem Decides.unique {c : Config} {name : String} {entry entry' : String × String}
    (h : c.Decides name entry) (h' : c.Decides name entry') : entry = entry' := by
  have hnames : entry.1 = entry'.1 := Utf8.encode_injective
    (List.le_antisymm (h'.greatest entry h.mem h.named) (h.greatest entry' h'.mem h'.named))
  have hdistinct : (c.httpHeaders.entries.map (·.1)).Nodup :=
    List.pairwise_map.2 (c.httpHeaders.rising.imp ne_of_lt)
  exact List.inj_on_of_nodup_map hdistinct h.mem h'.mem hnames

/-- A field that the settings name is decided by the last entry for it, and has its text. -/
theorem exists_decides {c : Config} {name : String}
    (h : ∃ entry ∈ c.httpHeaders.entries, Text.lower entry.1 = Text.lower name)
    (headers : Http.Headers) :
    ∃ entry, c.Decides name entry ∧
      (c.httpHeaders.entries.foldl put headers).get? (Text.lower name) =
        some (Utf8.encode entry.2) := by
  have hsome : (c.httpHeaders.entries.reverse.find? fun entry =>
      Text.lower entry.1 = Text.lower name).isSome = true := by
    simpa [List.find?_isSome] using h
  obtain ⟨entry, hfind⟩ := Option.isSome_iff_exists.1 hsome
  obtain ⟨hname, before, after, hentries, hafter⟩ := exists_of_find?_reverse hfind
  simp only [decide_eq_true_eq, decide_eq_false_iff_not] at hname hafter
  have hrising := c.httpHeaders.rising
  rw [hentries] at hrising
  refine ⟨entry, ⟨?_, hname, fun other hother hsame => ?_⟩, ?_⟩
  · rw [hentries]
    exact List.mem_append_right _ (List.mem_cons_self ..)
  · -- the other one is the entry itself or stands before it, and names rise
    rw [hentries, List.mem_append, List.mem_cons] at hother
    rcases hother with hbefore | rfl | hlater
    · have hlt := (List.pairwise_append.1 hrising).2.2 other hbefore entry (List.mem_cons_self ..)
      exact List.le_of_lt (Utf8.encode_lt_encode hlt)
    · exact List.le_refl _
    · exact absurd hsame (hafter other hlater)
  · rw [hentries, ← hname]
    exact get?_foldl_put_of_last (fun other hother => by rw [hname]; exact hafter other hother) _

end Config

/-! ## Requests -/

/-- The content type of a message in parts, written out. -/
theorem Multipart.messageType_boundaryOf (id rootId : Uuid) :
    messageType (boundaryOf id) (freshContentId rootId) =
      "multipart/related; type=\"application/xop+xml\"; boundary=\"MIMEBoundary_" ++
        id.simple ++ "\"; start=\"<" ++ rootId.simple ++
          "@zentinel-soap>\"; start-info=\"text/xml\"" := by
  have hfront : "multipart/related; type=\"application/xop+xml\"; boundary=\"MIMEBoundary_" =
      "multipart/related; type=\"" ++ rootType ++ "\"; boundary=\"" ++
        "MIMEBoundary_" := by decide +kernel
  have hback : "@zentinel-soap>\"; start-info=\"text/xml\"" =
      contentIdSuffix ++ ">\"; start-info=\"" ++ envelopeType ++ "\"" := by
    decide +kernel
  unfold messageType boundaryOf freshContentId
  simp only [hfront, String.append_assoc]
  simp only [hback, String.append_assoc]

namespace Client

/-- The content type that the library gives a body: an envelope that holds attachments is a message in
parts if the settings say so, with the first boundary that is free, and any other one is a plain
document. -/
def bodyType? (c : Client) (ids : IdStream) (envelope : Envelope) : Option String :=
  if c.config.mtom = true ∧ envelope.held ≠ [] then
    (Multipart.freeBoundary? ids (Utf8.encode (envelope.toDocument .referenced))
      envelope.attachments).map fun n =>
        "multipart/related; type=\"application/xop+xml\"; boundary=\"MIMEBoundary_" ++
          (ids n).simple ++ "\"; start=\"<" ++ (ids (n + 1)).simple ++
            "@zentinel-soap>\"; start-info=\"text/xml\""
  else some "text/xml; charset=\"utf-8\""

/-- The fields that the library sets. -/
def ownFields (c : Client) (contentType action : String) : List (String × String) :=
  [("content-type", contentType), ("soapaction", action),
    ("user-agent", if c.config.userAgent = "" then "gowsdl/0.1" else c.config.userAgent)]

/-- The fields that a request has. -/
structure HasFields (c : Client) (contentType action : String) (headers : Http.Headers) :
    Prop where
  /-- Each name has one value. -/
  nodup : headers.names.Nodup
  /-- The names are those of the library and those of the settings in lower case. -/
  names : ∀ name, name ∈ headers.names ↔
    name ∈ ["content-type", "soapaction", "user-agent"] ∨
      ∃ entry ∈ c.config.httpHeaders.entries, Text.lower entry.1 = name
  /-- The settings decide about every field that they name, in whatever case, and the library about
  all others. -/
  value : ∀ name,
    (∃ entry, c.config.Decides name entry ∧
      headers.get? (Text.lower name) = some (Utf8.encode entry.2)) ∨
      (∀ entry ∈ c.config.httpHeaders.entries, Text.lower entry.1 ≠ Text.lower name) ∧
        headers.get? (Text.lower name) =
          ((c.ownFields contentType action).lookup (Text.lower name)).map Utf8.encode

/-- The entry that decides about a field gives it its value. -/
theorem HasFields.get?_of_decides {c : Client} {contentType action : String}
    {headers : Http.Headers} (h : c.HasFields contentType action headers) {name : String}
    {entry : String × String} (hentry : c.config.Decides name entry) :
    headers.get? (Text.lower name) = some (Utf8.encode entry.2) := by
  rcases h.value name with ⟨entry', hentry', hvalue⟩ | ⟨hnone, -⟩
  · rw [hentry.unique hentry', hvalue]
  · exact absurd hentry.named (hnone entry hentry.mem)

/-- A field that the settings do not name has the value that the library gives it. -/
theorem HasFields.get?_of_unnamed {c : Client} {contentType action : String}
    {headers : Http.Headers} (h : c.HasFields contentType action headers) {name : String}
    (hunnamed : ∀ entry ∈ c.config.httpHeaders.entries, Text.lower entry.1 ≠ Text.lower name) :
    headers.get? (Text.lower name) =
      ((c.ownFields contentType action).lookup (Text.lower name)).map Utf8.encode := by
  rcases h.value name with ⟨entry, hentry, -⟩ | ⟨-, hvalue⟩
  · exact absurd hentry.named (hunnamed entry hentry.mem)
  · exact hvalue

theorem bodyType?_eq_some {c : Client} {ids : IdStream} {envelope : Envelope}
    {contentType : String} :
    c.bodyType? ids envelope = some contentType ↔
      ∃ message, c.encodeBody ids envelope = .ok message ∧ message.contentType = contentType := by
  have hparts : (c.config.mtom && envelope.hasAttachments) = true ↔
      c.config.mtom = true ∧ envelope.held ≠ [] := by
    rw [Bool.and_eq_true, Envelope.hasAttachments_iff]
  unfold bodyType? encodeBody
  by_cases h : c.config.mtom = true ∧ envelope.held ≠ []
  · rw [if_pos h, if_pos (hparts.2 h), Option.map_eq_some_iff]
    simp only [mapError_eq_ok, Multipart.encode_eq_ok]
    constructor
    · rintro ⟨n, hn, rfl⟩
      exact ⟨_, ⟨n, hn, rfl⟩, Multipart.messageType_boundaryOf (ids n) (ids (n + 1))⟩
    · rintro ⟨message, ⟨n, hn, rfl⟩, rfl⟩
      exact ⟨n, hn, (Multipart.messageType_boundaryOf (ids n) (ids (n + 1))).symm⟩
  · rw [if_neg h, if_neg (mt hparts.1 h)]
    simp [plainContentType]

/-- The name that the client gives itself is the one that is set, if there is one. -/
theorem userAgent_eq (c : Client) :
    c.userAgent = if c.config.userAgent = "" then "gowsdl/0.1" else c.config.userAgent := by
  rw [userAgent]
  simp only [String.isEmpty_iff]
  rfl

/-- The header of the library alone. -/
def ownHeaders (c : Client) (contentType action : String) : Http.Headers :=
  (c.ownFields contentType action).map fun field => (field.1, Utf8.encode field.2)

/-- What the settings make of the header of the library has the fields of a request. -/
theorem hasFields_foldl_put (c : Client) (contentType action : String) :
    c.HasFields contentType action
      (c.config.httpHeaders.entries.foldl Config.put (c.ownHeaders contentType action)) := by
  have hnames : (c.ownHeaders contentType action).names =
      ["content-type", "soapaction", "user-agent"] := rfl
  refine ⟨Config.nodup_names_foldl_put _ ?_, fun name => ?_, fun name => ?_⟩
  · rw [hnames]
    decide
  · rw [Config.mem_names_foldl_put, hnames]
  by_cases h : ∃ entry ∈ c.config.httpHeaders.entries, Text.lower entry.1 = Text.lower name
  · exact .inl (Config.exists_decides h _)
  · have hother : ∀ entry ∈ c.config.httpHeaders.entries,
        Text.lower entry.1 ≠ Text.lower name := fun entry hentry hsame => h ⟨entry, hentry, hsame⟩
    refine .inr ⟨hother, ?_⟩
    rw [Config.get?_foldl_put_of_ne hother, ownHeaders, Http.Headers.get?_map_encode]

/-- Where the texts of the library are values, only the settings are left to be set. -/
theorem requestHeaders_of_own {c : Client} {contentType action : String}
    (h : ∀ field ∈ c.ownFields contentType action, (Http.fieldValue? field.2).isSome = true) :
    c.requestHeaders contentType action =
      (c.config.overrideHeaders (c.ownHeaders contentType action)).mapError .config := by
  have hfield : ∀ field ∈ c.ownFields contentType action, ∀ name,
      ownField name field.2 = .ok (Utf8.encode field.2) := by
    intro field hmem name
    obtain ⟨value, hvalue⟩ := Option.isSome_iff_exists.1 (h field hmem)
    rw [ownField_eq_ok, hvalue, Http.eq_encode_of_fieldValue? hvalue]
  simp only [ownFields, List.forall_mem_cons] at hfield
  obtain ⟨htype, haction, hagent, -⟩ := hfield
  rw [requestHeaders, htype, haction, userAgent_eq, hagent]
  rfl

/-- There is a header when each of its fields can be set. -/
theorem requestHeaders_eq_ok {c : Client} {contentType action : String} {headers : Http.Headers} :
    c.requestHeaders contentType action = .ok headers ↔
      (∀ field ∈ c.ownFields contentType action, (Http.fieldValue? field.2).isSome = true) ∧
        (∀ entry ∈ c.config.httpHeaders.entries, Config.IsField entry) ∧
          headers =
            c.config.httpHeaders.entries.foldl Config.put (c.ownHeaders contentType action) := by
  constructor
  · intro h
    have hown : ∀ field ∈ c.ownFields contentType action,
        (Http.fieldValue? field.2).isSome = true := by
      obtain ⟨type, htype, h⟩ := bind_eq_ok.1 h
      obtain ⟨soapAction, haction, h⟩ := bind_eq_ok.1 h
      obtain ⟨agent, hagent, -⟩ := bind_eq_ok.1 h
      rw [ownField_eq_ok] at htype haction hagent
      rw [userAgent_eq] at hagent
      simp [ownFields, htype, haction, hagent]
    rw [requestHeaders_of_own hown, mapError_eq_ok] at h
    exact ⟨hown, Config.foldlM_setHeader_eq_ok.1 h⟩
  · rintro ⟨hown, hfields⟩
    rw [requestHeaders_of_own hown, mapError_eq_ok]
    exact Config.foldlM_setHeader_eq_ok.2 hfields

/-- Where an entry of the settings is no field, the settings are at fault. -/
theorem exists_requestHeaders_eq_error {c : Client} {contentType action : String}
    (hown : ∀ field ∈ c.ownFields contentType action, (Http.fieldValue? field.2).isSome = true)
    (h : ∃ entry ∈ c.config.httpHeaders.entries, ¬Config.IsField entry) :
    ∃ cause, c.requestHeaders contentType action = .error (.config cause) := by
  rw [requestHeaders_of_own hown]
  cases hset : c.config.overrideHeaders (c.ownHeaders contentType action) with
  | error cause => exact ⟨cause, rfl⟩
  | ok headers =>
    obtain ⟨entry, hentry, hfaulty⟩ := h
    exact absurd ((Config.foldlM_setHeader_eq_ok.1 hset).1 entry hentry) hfaulty

/-- The fields of a request, in which the settings win over the library. There is a request when
each of them can be set, and otherwise the settings are at fault. -/
theorem encodeRequest_fields (c : Client) (ids : IdStream) (action : String)
    (envelope : Envelope) :
    (∀ request, c.encodeRequest ids action envelope = .ok request →
      ∃ contentType, c.bodyType? ids envelope = some contentType ∧
        c.HasFields contentType action request.headers) ∧
      ∀ contentType, c.bodyType? ids envelope = some contentType →
        (∀ field ∈ c.ownFields contentType action, (Http.fieldValue? field.2).isSome = true) →
        ((∀ entry ∈ c.config.httpHeaders.entries, Config.IsField entry) →
          ∃ request, c.encodeRequest ids action envelope = .ok request) ∧
        ((∃ entry ∈ c.config.httpHeaders.entries, ¬Config.IsField entry) →
          ∃ cause, c.encodeRequest ids action envelope = .error (.config cause)) := by
  refine ⟨fun request h => ?_, fun contentType htype hown => ?_⟩
  · obtain ⟨message, hmessage, h⟩ := bind_eq_ok.1 h
    obtain ⟨headers, hheaders, h⟩ := bind_eq_ok.1 h
    cases h
    obtain ⟨-, -, rfl⟩ := requestHeaders_eq_ok.1 hheaders
    exact ⟨_, bodyType?_eq_some.2 ⟨message, hmessage, rfl⟩, hasFields_foldl_put c _ action⟩
  · obtain ⟨message, hmessage, rfl⟩ := bodyType?_eq_some.1 htype
    refine ⟨fun hfields => ?_, fun hfaulty => ?_⟩
    · exact ⟨_, bind_eq_ok.2 ⟨_, hmessage, bind_eq_ok.2
        ⟨_, requestHeaders_eq_ok.2 ⟨hown, hfields, rfl⟩, rfl⟩⟩⟩
    · obtain ⟨cause, hcause⟩ := exists_requestHeaders_eq_error hown hfaulty
      refine ⟨cause, ?_⟩
      rw [encodeRequest, hmessage]
      show (do
        let headers ← c.requestHeaders message.contentType action
        _) = _
      rw [hcause]
      rfl

/-- A client that has a name, and whose settings name one field in three spellings, and one that the
library sets. -/
def tracedClient : Client :=
  { config :=
      { endpoint := "http://localhost/"
        userAgent := "billing/2.0"
        httpHeaders :=
          .ofList [("X-Trace", "a"), ("x-trace", "c"), ("X-TRACE", "b"), ("Soapaction", "off")] } }

/-- A client that has no name. -/
def namelessClient : Client := { config := { endpoint := "http://localhost/", userAgent := "" } }

/-- The client with a name among its settings that no field can have. -/
def misnamedClient : Client :=
  { config :=
      { tracedClient.config with
        httpHeaders := tracedClient.config.httpHeaders.insert "trace id" "d" } }

/-- An envelope that only asks for an answer. -/
def ping : Envelope := { headers := [], body := .named "Ping" }

theorem encodeRequest_fields_traced :
    (∃ request, tracedClient.encodeRequest (fun _ => 0) "urn:ping" ping = .ok request ∧
      request.headers.names.Nodup ∧
      request.headers.get? "x-trace" = some (Utf8.encode "c") ∧
      request.headers.get? "soapaction" = some (Utf8.encode "off") ∧
      request.headers.get? "user-agent" = some (Utf8.encode "billing/2.0")) ∧
      (∃ request, namelessClient.encodeRequest (fun _ => 0) "urn:ping" ping = .ok request ∧
        request.headers.get? "user-agent" = some (Utf8.encode "gowsdl/0.1") ∧
        request.headers.get? "content-type" =
          some (Utf8.encode "text/xml; charset=\"utf-8\"")) ∧
      ∃ cause, misnamedClient.encodeRequest (fun _ => 0) "urn:ping" ping =
        .error (.config cause) := by
  obtain ⟨hfields, htraced⟩ := encodeRequest_fields tracedClient (fun _ => 0) "urn:ping" ping
  obtain ⟨hownFields, hnameless⟩ :=
    encodeRequest_fields namelessClient (fun _ => 0) "urn:ping" ping
  obtain ⟨-, hmisnamed⟩ := encodeRequest_fields misnamedClient (fun _ => 0) "urn:ping" ping
  have htrace : tracedClient.config.Decides "X-trace" ("x-trace", "c") :=
    ⟨by decide +kernel, by decide +kernel, by decide +kernel⟩
  have haction : tracedClient.config.Decides "SOAPAction" ("Soapaction", "off") :=
    ⟨by decide +kernel, by decide +kernel, by decide +kernel⟩
  have hagent : ∀ entry ∈ tracedClient.config.httpHeaders.entries,
      Text.lower entry.1 ≠ Text.lower "User-Agent" := by decide +kernel
  refine ⟨?_, ?_, (hmisnamed _ rfl (by decide +kernel)).2 (by decide +kernel)⟩
  · obtain ⟨request, hrequest⟩ := (htraced _ rfl (by decide +kernel)).1 (by decide +kernel)
    obtain ⟨contentType, -, hhas⟩ := hfields request hrequest
    exact ⟨request, hrequest, hhas.nodup, hhas.get?_of_decides htrace,
      hhas.get?_of_decides haction, hhas.get?_of_unnamed hagent⟩
  · obtain ⟨request, hrequest⟩ := (hnameless _ rfl (by decide +kernel)).1 (by decide +kernel)
    obtain ⟨contentType, htype, hhas⟩ := hownFields request hrequest
    obtain rfl := Option.some.inj htype
    have hunnamed : ∀ name, ∀ entry ∈ namelessClient.config.httpHeaders.entries,
        Text.lower entry.1 ≠ Text.lower name := fun _ _ hentry => by cases hentry
    exact ⟨request, hrequest, hhas.get?_of_unnamed (hunnamed "User-Agent"),
      hhas.get?_of_unnamed (hunnamed "Content-Type")⟩

end Client

end SoapMtom
