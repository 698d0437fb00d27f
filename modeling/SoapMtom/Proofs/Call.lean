import SoapMtom.Client
import SoapMtom.Proofs.Mime.MediaType
import SoapMtom.Proofs.Outcome

/-!
# What becomes of a call

A call ends in one of few ways: nothing could be sent, the transport failed or stays silent, the
service reports a fault, the status reports no success, the response cannot be read, or there is an
answer. `Client.callInto_spec` says which, and that only an answer touches the reply.
-/

namespace SoapMtom

universe u v

/-! ## Faults -/

/-- A payload called `Fault`, in the namespace of an envelope. -/
def Xml.Element.IsFault (e : Xml.Element) : Prop :=
  e.name = "Fault" ∧ (e.ns = some Xml.soap11 ∨ e.ns = some Xml.soap12)

/-- There is no fault exactly where the payload is none. -/
theorem Envelope.fault?_eq_none {e : Envelope} : e.fault? = none ↔ ¬ e.body.IsFault := by
  unfold Envelope.fault? Fault.ofElement? Xml.Element.IsFault
  split
  · next h =>
    rw [Bool.and_eq_true, Bool.or_eq_true, decide_eq_true_eq, decide_eq_true_eq,
      decide_eq_true_eq] at h
    constructor
    · intro hnone
      split at hnone <;> cases hnone
    · intro hbody
      exact absurd h hbody
  · next h =>
    rw [Bool.and_eq_true, Bool.or_eq_true, decide_eq_true_eq, decide_eq_true_eq,
      decide_eq_true_eq] at h
    exact ⟨fun _ => h, fun _ => rfl⟩

/-! ## Taking in a response -/

namespace Http.Response

/-- The envelope in a response, whatever its body reports: one with parts beside it if the content
type says so, and a plain document otherwise. -/
def envelope (r : Response) : Except ParseError Envelope :=
  match r.contentType?.filter fun type => Mime.MediaType.NamesParts type with
  | some contentType => (Multipart.decode contentType r.body).map (·.1)
  | none => Envelope.ofPlain r.body

/-- The first characters of a response, ill-formed text replaced. -/
def excerpt (r : Response) : String :=
  String.ofList ((Utf8.lossy r.body).toList.take 512)

/-- What the content type says is what its essence says. -/
theorem envelope_eq (r : Response) :
    r.envelope =
      match r.contentType?.filter Multipart.isMultipart with
      | some contentType => (Multipart.decode contentType r.body).map (·.1)
      | none => Envelope.ofPlain r.body := by
  have hsame : (fun type => decide (Mime.MediaType.NamesParts type)) = Multipart.isMultipart := by
    funext type
    rw [Bool.eq_iff_iff, decide_eq_true_eq]
    exact (Mime.MediaType.isMultipart_parse_iff type).symm
  rw [envelope, hsame]

theorem isSuccess_iff {r : Response} : r.isSuccess = true ↔ 200 ≤ r.status ∧ r.status ≤ 299 := by
  unfold isSuccess
  rw [Bool.and_eq_true, decide_eq_true_eq, decide_eq_true_eq]
  omega

end Http.Response

variable {r : Http.Response}

/-- What is received is the envelope, unless it reports a fault. -/
theorem receive_eq (r : Http.Response) :
    Envelope.receive r.contentType? r.body =
      match r.envelope with
      | .ok e => e.checkFault
      | .error cause => .error (.parse cause) := by
  rw [Http.Response.envelope_eq, Envelope.receive]
  cases r.contentType?.filter Multipart.isMultipart with
  | some contentType =>
    dsimp only
    unfold Envelope.receiveMultipart
    cases Multipart.decode contentType r.body with
    | error cause => rfl
    | ok p => rfl
  | none =>
    dsimp only
    unfold Envelope.receivePlain
    cases Envelope.ofPlain r.body with
    | error cause => rfl
    | ok e => rfl

theorem receive_of_envelope_eq_ok {e : Envelope} (h : r.envelope = .ok e) :
    Envelope.receive r.contentType? r.body = e.checkFault := by
  rw [receive_eq, h]

theorem receive_of_envelope_eq_error {cause : ParseError} (h : r.envelope = .error cause) :
    Envelope.receive r.contentType? r.body = .error (.parse cause) := by
  rw [receive_eq, h]

/-- A fault counts at every status. -/
theorem decodeResponse_of_fault {e : Envelope} {f : Fault} (h : r.envelope = .ok e)
    (hfault : e.fault? = some f) : decodeResponse r = .error (.fault f) := by
  rw [decodeResponse, receive_of_envelope_eq_ok h, Envelope.checkFault, hfault]

/-- Without a fault a status that reports no success counts, whatever is in the response. -/
theorem decodeResponse_of_status (hstatus : r.isSuccess = false)
    (h : ∀ e, r.envelope = .ok e → e.fault? = none) :
    decodeResponse r = .error (.http r.status r.excerpt) := by
  cases henvelope : r.envelope with
  | error cause =>
    rw [decodeResponse, receive_of_envelope_eq_error henvelope, hstatus]
    rfl
  | ok e =>
    rw [decodeResponse, receive_of_envelope_eq_ok henvelope, Envelope.checkFault, h e henvelope,
      hstatus]
    rfl

/-- With a status that reports success, what is wrong with the message counts. -/
theorem decodeResponse_of_error {cause : ParseError} (hstatus : r.isSuccess = true)
    (h : r.envelope = .error cause) : decodeResponse r = .error (.parse cause) := by
  rw [decodeResponse, receive_of_envelope_eq_error h, hstatus]
  rfl

theorem decodeResponse_of_ok {e : Envelope} (hstatus : r.isSuccess = true) (h : r.envelope = .ok e)
    (hfault : e.fault? = none) : decodeResponse r = .ok e := by
  rw [decodeResponse, receive_of_envelope_eq_ok h, Envelope.checkFault, hfault, hstatus]
  rfl

/-- An envelope is taken in only from a response that reports success and no fault. -/
theorem decodeResponse_eq_ok {e : Envelope} :
    decodeResponse r = .ok e ↔ r.isSuccess = true ∧ r.envelope = .ok e ∧ e.fault? = none := by
  constructor
  · intro h
    by_cases hquiet : ∀ e, r.envelope = .ok e → e.fault? = none
    · by_cases hstatus : r.isSuccess = true
      · cases henvelope : r.envelope with
        | error cause =>
          rw [decodeResponse_of_error hstatus henvelope] at h
          cases h
        | ok e' =>
          have hfault := hquiet e' henvelope
          rw [decodeResponse_of_ok hstatus henvelope hfault] at h
          cases h
          exact ⟨hstatus, rfl, hfault⟩
      · rw [decodeResponse_of_status (Bool.eq_false_iff.2 hstatus) hquiet] at h
        cases h
    · -- some envelope reports a fault, and that would be the result
      simp only [not_forall] at hquiet
      obtain ⟨e', henvelope, hfault⟩ := hquiet
      obtain ⟨f, hf⟩ := Option.ne_none_iff_exists'.1 hfault
      rw [decodeResponse_of_fault henvelope hf] at h
      cases h
  · rintro ⟨hstatus, henvelope, hfault⟩
    exact decodeResponse_of_ok hstatus henvelope hfault

/-! ## Calls -/

namespace Client

variable {α : Type u} [ToElement α] {β : Type v} [OfElement β]
variable {c : Client} {transport : Transport} {ids : IdStream} {action : String} {body : α}

/-- A request fails with the envelope or with what is made of it. -/
theorem request_eq_error {cause : SoapError} :
    c.request ids action body = .error cause ↔
      c.envelope body = .error cause ∨
        ∃ e, c.envelope body = .ok e ∧ c.encodeRequest ids action e = .error cause := by
  unfold request
  cases c.envelope body with
  | error cause' =>
    show Except.error cause' = _ ↔ _
    simp
  | ok e =>
    show c.encodeRequest ids action e = _ ↔ _
    simp

/-- What a call without a request comes to. -/
theorem callInto_of_request_error {cause : SoapError}
    (h : c.request ids action body = .error cause) (reply : β) :
    c.callInto transport ids action body reply = (reply, .failed cause) := by
  unfold callInto call callEnvelope
  rw [h]
  rfl

theorem callInto_of_silence {request : Http.Request}
    (h : c.request ids action body = .ok request) (hsilent : transport request = none) (reply : β) :
    c.callInto transport ids action body reply =
      (reply, { sent := some request, result := none }) := by
  unfold callInto call callEnvelope
  rw [h]
  dsimp only
  rw [hsilent]
  rfl

/-- A failure after the request was sent leaves the reply as it is. -/
theorem callInto_of_error {request : Http.Request} {outcome : Except SoapError Http.Response}
    (h : c.request ids action body = .ok request) (hsent : transport request = some outcome)
    {cause : SoapError} (herror : outcome.bind decodeResponse = .error cause) (reply : β) :
    c.callInto transport ids action body reply =
      (reply, { sent := some request, result := some (.error cause) }) := by
  unfold callInto call callEnvelope
  rw [h]
  dsimp only
  rw [hsent, Option.map_some, herror]
  rfl

/-- An envelope that is taken in is read as an answer, and only an answer is stored. -/
theorem callInto_of_ok {request : Http.Request} {outcome : Except SoapError Http.Response}
    (h : c.request ids action body = .ok request) (hsent : transport request = some outcome)
    {e : Envelope} (hok : outcome.bind decodeResponse = .ok e) {answer : Except SoapError β}
    (hanswer : OfElement.ofElement (answerId ids) e.body = answer) (reply : β) :
    c.callInto transport ids action body reply =
      (answer.toOption.getD reply,
        { sent := some request, result := some (answer.map fun _ => ()) }) := by
  unfold callInto call callEnvelope
  rw [h]
  dsimp only
  rw [hsent, Option.map_some, hok]
  simp only [Exchange.andThen, Option.map_some, Except.bind, Envelope.bodyAs, hanswer]
  cases answer with
  | ok value => rfl
  | error cause => rfl

/-- A request is handed over whatever comes of it. -/
theorem sent_of_request {request : Http.Request} (h : c.request ids action body = .ok request)
    (reply : β) : (c.callInto transport ids action body reply).2.sent = some request := by
  unfold callInto call callEnvelope
  rw [h]
  rfl

/-- There is an answer, which is stored, or the reply stays as it is. -/
theorem callInto_cases (c : Client) (transport : Transport) (ids : IdStream) (action : String)
    (body : α) (reply : β) :
    (c.callInto transport ids action body reply).1 = reply ∧
        (c.callInto transport ids action body reply).2.result ≠ some (.ok ()) ∨
      (c.callInto transport ids action body reply).2.result = some (.ok ()) ∧
      ∃ request response e, c.request ids action body = .ok request ∧
        transport request = some (.ok response) ∧ decodeResponse response = .ok e ∧
          OfElement.ofElement (answerId ids) e.body =
            .ok (c.callInto transport ids action body reply).1 := by
  -- each step of a call may be the last one; only the last case gets to the reply
  cases hrequest : c.request ids action body with
  | error cause =>
    rw [callInto_of_request_error hrequest]
    exact .inl ⟨rfl, by simp [Exchange.failed]⟩
  | ok request =>
    cases hsent : transport request with
    | none =>
      rw [callInto_of_silence hrequest hsent]
      exact .inl ⟨rfl, by simp⟩
    | some outcome =>
      cases hdecode : outcome.bind decodeResponse with
      | error cause =>
        rw [callInto_of_error hrequest hsent hdecode]
        exact .inl ⟨rfl, by simp⟩
      | ok e =>
        cases hanswer : (OfElement.ofElement (answerId ids) e.body : Except SoapError β) with
        | error cause =>
          rw [callInto_of_ok hrequest hsent hdecode hanswer]
          exact .inl ⟨rfl, by simp [Except.map]⟩
        | ok value =>
          rw [callInto_of_ok hrequest hsent hdecode hanswer]
          obtain ⟨response, rfl, hresponse⟩ := bind_eq_ok.1 hdecode
          exact .inr ⟨rfl, request, response, e, rfl, hsent, hresponse, hanswer⟩

/-- What comes of each response to a request that was sent. -/
theorem result_of_response {request : Http.Request} {response : Http.Response}
    (h : c.request ids action body = .ok request)
    (hsent : transport request = some (.ok response)) (reply : β) :
    (∀ e f, response.envelope = .ok e → e.fault? = some f →
      (c.callInto transport ids action body reply).2.result = some (.error (.fault f))) ∧
    (response.isSuccess = false → (∀ e, response.envelope = .ok e → e.fault? = none) →
      (c.callInto transport ids action body reply).2.result =
        some (.error (.http response.status response.excerpt))) ∧
    (response.isSuccess = true → ∀ cause, response.envelope = .error cause →
      (c.callInto transport ids action body reply).2.result = some (.error (.parse cause))) ∧
    (response.isSuccess = true → ∀ e, response.envelope = .ok e → e.fault? = none →
      (c.callInto transport ids action body reply).2.result = some
        ((OfElement.ofElement (answerId ids) e.body : Except SoapError β).map fun _ => ())) := by
  have hfailed : ∀ {cause : SoapError}, decodeResponse response = .error cause →
      (c.callInto transport ids action body reply).2.result = some (.error cause) := by
    intro cause hcause
    rw [callInto_of_error h hsent hcause]
  refine ⟨fun e f he hf => hfailed (decodeResponse_of_fault he hf),
    fun hstatus hquiet => hfailed (decodeResponse_of_status hstatus hquiet),
    fun hstatus cause hcause => hfailed (decodeResponse_of_error hstatus hcause),
    fun hstatus e he hquiet => ?_⟩
  rw [callInto_of_ok h hsent (decodeResponse_of_ok hstatus he hquiet) rfl]

/-- What a call comes to, case by case. Only an answer touches the reply: one read from an envelope
without a fault, in a response whose status reports success. -/
theorem callInto_spec (c : Client) (transport : Transport) (ids : IdStream) (action : String)
    (body : α) (reply : β) :
    let stored := (c.callInto transport ids action body reply).1
    let exchange := (c.callInto transport ids action body reply).2
    (exchange.result ≠ some (.ok ()) → stored = reply) ∧
    (exchange.result = some (.ok ()) →
      ∃ request response e, c.request ids action body = .ok request ∧
        transport request = some (.ok response) ∧ 200 ≤ response.status ∧ response.status ≤ 299 ∧
          response.envelope = .ok e ∧ ¬ e.body.IsFault ∧
            OfElement.ofElement (answerId ids) e.body = .ok stored) ∧
    (∀ cause, (c.envelope body = .error cause ∨
        ∃ e, c.envelope body = .ok e ∧ c.encodeRequest ids action e = .error cause) →
      exchange.sent = none ∧ exchange.result = some (.error cause)) ∧
    ∀ request, c.request ids action body = .ok request →
      exchange.sent = some request ∧
      (transport request = none → exchange.result = none) ∧
      (∀ cause, transport request = some (.error cause) →
        exchange.result = some (.error cause)) ∧
      ∀ response, transport request = some (.ok response) →
        (∀ e f, response.envelope = .ok e → e.fault? = some f →
          exchange.result = some (.error (.fault f))) ∧
        (¬(200 ≤ response.status ∧ response.status ≤ 299) →
          (∀ e, response.envelope = .ok e → ¬ e.body.IsFault) →
            exchange.result = some (.error (.http response.status response.excerpt))) ∧
        (200 ≤ response.status ∧ response.status ≤ 299 →
          ∀ cause, response.envelope = .error cause →
            exchange.result = some (.error (.parse cause))) ∧
        (200 ≤ response.status ∧ response.status ≤ 299 →
          ∀ e, response.envelope = .ok e → ¬ e.body.IsFault →
            exchange.result = some
              ((OfElement.ofElement (answerId ids) e.body : Except SoapError β).map fun _ => ())) := by
  intro stored exchange
  refine ⟨fun h => ?_, fun h => ?_, fun cause h => ?_, fun request hrequest => ⟨?_, ?_, ?_, ?_⟩⟩
  · rcases callInto_cases c transport ids action body reply with ⟨hreply, -⟩ | ⟨hanswered, -⟩
    · exact hreply
    · exact absurd hanswered h
  · rcases callInto_cases c transport ids action body reply with
      ⟨-, hresult⟩ | ⟨-, request, response, e, hrequest, hsent, hresponse, hanswer⟩
    · exact absurd h hresult
    · obtain ⟨hstatus, henvelope, hfault⟩ := decodeResponse_eq_ok.1 hresponse
      obtain ⟨hlow, hhigh⟩ := Http.Response.isSuccess_iff.1 hstatus
      exact ⟨request, response, e, hrequest, hsent, hlow, hhigh, henvelope,
        Envelope.fault?_eq_none.1 hfault, hanswer⟩
  · show (c.callInto transport ids action body reply).2.sent = none ∧
      (c.callInto transport ids action body reply).2.result = some (.error cause)
    rw [callInto_of_request_error (request_eq_error.2 h)]
    exact ⟨rfl, rfl⟩
  · exact sent_of_request hrequest reply
  · intro hsilent
    show (c.callInto transport ids action body reply).2.result = none
    rw [callInto_of_silence hrequest hsilent]
  · intro cause hsent
    show (c.callInto transport ids action body reply).2.result = some (.error cause)
    rw [callInto_of_error hrequest hsent rfl]
  · intro response hsent
    obtain ⟨hfault, hstatus, herror, hok⟩ := result_of_response hrequest hsent reply
    refine ⟨hfault, fun hrange hquiet => ?_, fun hrange cause hcause => ?_,
      fun hrange e he hquiet => ?_⟩
    · refine hstatus (Bool.eq_false_iff.2 fun h => hrange (Http.Response.isSuccess_iff.1 h)) ?_
      exact fun e he => Envelope.fault?_eq_none.2 (hquiet e he)
    · exact herror (Http.Response.isSuccess_iff.2 hrange) cause hcause
    · exact hok (Http.Response.isSuccess_iff.2 hrange) e he (Envelope.fault?_eq_none.2 hquiet)

end Client

end SoapMtom
