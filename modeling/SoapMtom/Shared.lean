import SoapMtom.Client

/-!
# A client that tasks share

Any number of tasks use one client at the same time. Its header entries stand behind a lock; whoever
holds the lock changes them or copies them, and lets go again. A call works with its copy from then
on: it builds the envelope, encodes the request, waits for the transport, and may be given up at any
of these places.

`step` is one move of one task, `run` a whole schedule of moves. Every move that fits leaves an event
in the log, so that what became of a schedule can be read there.
-/

namespace SoapMtom

open Xml (Element)

/-- A value that has been written already, or could not be. -/
instance : ToElement (Except SoapError Element) := ⟨id⟩

namespace Shared

/-- An operation that changes the header entries. -/
inductive HeaderOperation where
  | addHeader (value : Except SoapError Element)
  | addHeaderEntry (entry : HeaderEntry)
  | setHeaders (entries : List HeaderEntry)
  | clearHeaders

/-- What a call has besides its payload. -/
structure Call where
  action : String
  ids : IdStream

/-- An operation that builds an envelope: to look at it, or to send it with a call. -/
structure Inquiry where
  body : Except SoapError Element
  call : Option Call := none

/-- What a task asks of the client. -/
inductive Operation where
  | header (op : HeaderOperation)
  | inquiry (q : Inquiry)

/-- Where a task stands. -/
inductive Phase where
  | idle
  /-- Before the lock, to change the entries. -/
  | changing (op : HeaderOperation)
  /-- Before the lock, to copy the entries. -/
  | asking (q : Inquiry)
  /-- With a copy of the entries. -/
  | building (q : Inquiry) (entries : List HeaderEntry)
  /-- With the envelope of a call. -/
  | encoding (q : Inquiry) (call : Call) (envelope : Envelope)
  /-- With a request at the transport. -/
  | waiting (q : Inquiry)

/-- What a task can do next. -/
inductive Move where
  | begin (op : Operation)
  | advance
  /-- The transport comes back. -/
  | receive (outcome : Except SoapError Http.Response)
  | abandon

/-- What has happened. -/
inductive Event where
  | begun (op : Operation)
  | changed (op : HeaderOperation)
  | copied (q : Inquiry)
  | built (q : Inquiry) (envelope : Envelope)
  | sent (q : Inquiry) (envelope : Envelope) (request : Http.Request)
  | answered (q : Inquiry) (result : Except SoapError Envelope)
  | failed (cause : SoapError)
  | abandoned

/-- What a move brings about. -/
structure Effect where
  event : Event
  phase : Phase
  client : Client

/-- The client, where each task stands, and what each of them has done, in order. -/
structure State where
  client : Client
  phase : Nat → Phase := fun _ => .idle
  log : List (Nat × Event) := []

/-- The client after a change under the lock; a value that cannot be written changes nothing. -/
def HeaderOperation.change (c : Client) : HeaderOperation → Except SoapError Client
  | .addHeader value => c.addHeader value
  | .addHeaderEntry entry => .ok (c.addEntry entry)
  | .setHeaders entries => .ok (c.setHeaders entries)
  | .clearHeaders => .ok c.clearHeaders

/-- A task that failed. -/
def Effect.failed (c : Client) (cause : SoapError) : Effect :=
  { event := .failed cause, phase := .idle, client := c }

/-- What a move of a task in that phase does, if it fits. -/
def effect? (c : Client) : Phase → Move → Option Effect
  | .idle, .begin (.header op) =>
    some { event := .begun (.header op), phase := .changing op, client := c }
  | .idle, .begin (.inquiry q) =>
    some { event := .begun (.inquiry q), phase := .asking q, client := c }
  | .changing op, .advance =>
    some
      (match op.change c with
      | .ok changed => { event := .changed op, phase := .idle, client := changed }
      | .error cause => .failed c cause)
  | .asking q, .advance =>
    some { event := .copied q, phase := .building q c.headers, client := c }
  | .building q entries, .advance =>
    some
      (match { c with headers := entries }.envelope q.body with
      | .ok envelope =>
        { event := .built q envelope
          phase :=
            match q.call with
            | some call => .encoding q call envelope
            | none => .idle
          client := c }
      | .error cause => .failed c cause)
  | .encoding q call envelope, .advance =>
    some
      (match c.encodeRequest call.ids call.action envelope with
      | .ok request => { event := .sent q envelope request, phase := .waiting q, client := c }
      | .error cause => .failed c cause)
  | .waiting q, .receive outcome =>
    some { event := .answered q (outcome.bind decodeResponse), phase := .idle, client := c }
  | .idle, _ => none
  | _, .abandon => some { event := .abandoned, phase := .idle, client := c }
  | _, _ => none

/-- One move of one task. A move that does not fit does nothing. -/
def step (s : State) (t : Nat) (move : Move) : State :=
  match effect? s.client (s.phase t) move with
  | none => s
  | some x =>
    { client := x.client
      phase := fun t' => if t' = t then x.phase else s.phase t'
      log := s.log ++ [(t, x.event)] }

/-- A schedule of moves, one after another. -/
def run (s : State) (schedule : List (Nat × Move)) : State :=
  schedule.foldl (fun s m => step s m.1 m.2) s

end Shared

end SoapMtom
