import Mathlib.Data.List.Forall2
import SoapMtom.Proofs.Envelope
import SoapMtom.Proofs.Xml.Assembly
import SoapMtom.Shared

/-!
# What tasks see of each other

Whatever the schedule, the header entries are those that the changes under the lock make of them one
after another, and a task sees of the others only the changes before it took its copy. `Inv` says
this of every place that a schedule can reach: the log accounts for the entries, for where each task
stands, and for each event. Main statements:

> `step_header`, `step_inquiry` and `step_building`: what a task leaves in the log, whatever others
> did while it waited.
>
> `inv_run`: every schedule keeps the invariant.
>
> `run_spec`: the envelopes and requests of a schedule, and what is left of the entries.
-/

namespace SoapMtom

open Xml (Element Attribute)

/-! ## Header blocks -/

/-- The header block that is sent for an entry: normal, and marked if it has to be understood. -/
def HeaderEntry.Carried (entry : HeaderEntry) (block : Element) : Prop :=
  block = entry.element.normalize "" ∧
    (entry.mustUnderstand = true →
      { ns := some Xml.soap11, name := "mustUnderstand", value := "1" } ∈ block.attributes) ∧
    (entry.mustUnderstand = false → block = entry.block.normalize "")

theorem Xml.Element.attributes_normalize (inherited : String) (e : Element) :
    (e.normalize inherited).attributes = e.attributes := by
  obtain ⟨ns, name, attributes, children⟩ := e
  rw [Element.normalize]

theorem HeaderEntry.carried_normalize (entry : HeaderEntry) :
    entry.Carried (entry.element.normalize "") := by
  refine ⟨rfl, fun h => ?_, fun h => ?_⟩
  · rw [Element.attributes_normalize, HeaderEntry.element, if_pos h]
    exact Element.mem_assign _ _
  · rw [HeaderEntry.element, h]
    rfl

/-- The header blocks of a built envelope are the entries, in order. -/
theorem Envelope.carried_of_build {α : Type*} [ToElement α] {entries : List HeaderEntry} {body : α}
    {e : Envelope} (h : Envelope.build entries body = .ok e) :
    List.Forall₂ HeaderEntry.Carried entries e.headers := by
  obtain ⟨raw, -, h⟩ := bind_eq_ok.1 h
  obtain ⟨payload, -, h⟩ := bind_eq_ok.1 h
  obtain ⟨headers, hheaders, h⟩ := bind_eq_ok.1 h
  cases h
  refine (mapM_eq_ok.1 hheaders).imp fun entry block hblock => ?_
  obtain ⟨-, rfl⟩ := Envelope.prepare_eq_ok.1 hblock
  exact entry.carried_normalize

namespace Shared

variable {c : Client} {s : State} {t u : Nat}

/-! ## The entries that changes make -/

/-- The entries after a change. -/
def HeaderOperation.apply (entries : List HeaderEntry) : HeaderOperation → List HeaderEntry
  | .addHeader (.ok block) => entries ++ [{ block }]
  | .addHeader (.error _) => entries
  | .addHeaderEntry entry => entries ++ [entry]
  | .setHeaders entries => entries
  | .clearHeaders => []

/-- The entries after the changes of a log. -/
def entriesAfter (entries : List HeaderEntry) (log : List (Nat × Event)) : List HeaderEntry :=
  log.foldl
    (fun entries p =>
      match p.2 with
      | .changed op => op.apply entries
      | _ => entries)
    entries

theorem entriesAfter_append (entries : List HeaderEntry) (log rest : List (Nat × Event)) :
    entriesAfter entries (log ++ rest) = entriesAfter (entriesAfter entries log) rest :=
  List.foldl_append ..

/-- A change is of the entries alone, and only a value that could not be written is no change. -/
theorem HeaderOperation.change_eq_ok {op : HeaderOperation} {c changed : Client} :
    op.change c = .ok changed ↔
      changed = { c with headers := op.apply c.headers } ∧
        ∀ cause, op ≠ .addHeader (.error cause) := by
  constructor
  · intro h
    cases op with
    | addHeader value =>
      cases value with
      | error cause => cases h
      | ok block =>
        cases h
        exact ⟨rfl, by simp⟩
    | addHeaderEntry entry | setHeaders entries | clearHeaders =>
      cases h
      exact ⟨rfl, by simp⟩
  · rintro ⟨rfl, hwritten⟩
    cases op with
    | addHeader value =>
      cases value with
      | error cause => exact absurd rfl (hwritten cause)
      | ok block => rfl
    | addHeaderEntry entry | setHeaders entries | clearHeaders => rfl

/-! ## What a move does -/

/-- What a move can bring about in a phase, case by case. -/
inductive Taken (c : Client) : Phase → Effect → Prop where
  | beginHeader (op : HeaderOperation) : Taken c .idle ⟨.begun (.header op), .changing op, c⟩
  | beginInquiry (q : Inquiry) : Taken c .idle ⟨.begun (.inquiry q), .asking q, c⟩
  | change {op : HeaderOperation} {changed : Client} (h : op.change c = .ok changed) :
      Taken c (.changing op) ⟨.changed op, .idle, changed⟩
  | copy (q : Inquiry) : Taken c (.asking q) ⟨.copied q, .building q c.headers, c⟩
  | look {q : Inquiry} {entries : List HeaderEntry} {envelope : Envelope}
      (h : Envelope.build entries q.body = .ok envelope) :
      Taken c (.building q entries) ⟨.built q envelope, .idle, c⟩
  | build {q : Inquiry} {entries : List HeaderEntry} {call : Call} {envelope : Envelope}
      (h : Envelope.build entries q.body = .ok envelope) (hcall : q.call = some call) :
      Taken c (.building q entries) ⟨.built q envelope, .encoding q call envelope, c⟩
  | send {q : Inquiry} {call : Call} {envelope : Envelope} {request : Http.Request}
      (h : c.encodeRequest call.ids call.action envelope = .ok request) :
      Taken c (.encoding q call envelope) ⟨.sent q envelope request, .waiting q, c⟩
  | answer (q : Inquiry) (outcome : Except SoapError Http.Response) :
      Taken c (.waiting q) ⟨.answered q (outcome.bind decodeResponse), .idle, c⟩
  | fail (p : Phase) (cause : SoapError) : Taken c p (.failed c cause)
  | abandon (p : Phase) : Taken c p ⟨.abandoned, .idle, c⟩

theorem taken_of_effect? {p : Phase} {move : Move} {x : Effect} (h : effect? c p move = some x) :
    Taken c p x := by
  unfold effect? at h
  split at h
  · cases h
    exact .beginHeader _
  · cases h
    exact .beginInquiry _
  · split at h
    · next hchange =>
      cases h
      exact .change hchange
    · cases h
      exact .fail _ _
  · cases h
    exact .copy _
  · split at h
    · next hbuild =>
      cases h
      split
      · next hcall => exact .build hbuild hcall
      · exact .look hbuild
    · cases h
      exact .fail _ _
  · split at h
    · next hencode =>
      cases h
      exact .send hencode
    · cases h
      exact .fail _ _
  · cases h
    exact .answer _ _
  · cases h
  · cases h
    exact .abandon _
  · cases h

/-! ## What a schedule leaves in the log -/

/-- A move that fits leaves its event in the log, its task in the next phase, and all other tasks
where they stand. -/
theorem step_of_effect? {move : Move} {x : Effect}
    (h : effect? s.client (s.phase t) move = some x) :
    step s t move =
      { client := x.client
        phase := fun u => if u = t then x.phase else s.phase u
        log := s.log ++ [(t, x.event)] } := by
  rw [step, h]

theorem phase_step_of_ne (h : t ≠ u) (move : Move) : (step s t move).phase u = s.phase u := by
  unfold step
  split
  · rfl
  · exact if_neg (Ne.symm h)

/-- A task stands where it stands while others move. -/
theorem phase_run_of_others {others : List (Nat × Move)} (h : ∀ m ∈ others, m.1 ≠ t) :
    (run s others).phase t = s.phase t := by
  induction others generalizing s with
  | nil => rfl
  | cons m others ih =>
    obtain ⟨hm, hothers⟩ := List.forall_mem_cons.1 h
    exact (ih hothers).trans (phase_step_of_ne hm _)

section Schedules

variable {others : List (Nat × Move)} (hothers : ∀ m ∈ others, m.1 ≠ t)
include hothers

/-- A move takes its task to the next phase, and there it stays while others move. -/
theorem phase_run_step {move : Move} {x : Effect}
    (h : effect? s.client (s.phase t) move = some x) :
    (run (step s t move) others).phase t = x.phase := by
  rw [phase_run_of_others hothers, step_of_effect? h]
  exact if_pos rfl

/-- A task that asked for a change makes it when it gets the lock, whatever others did while it
waited, if its value could be written. -/
theorem step_header {op : HeaderOperation} (hidle : s.phase t = .idle)
    (hwritten : ∀ cause, op ≠ .addHeader (.error cause)) :
    let reached := run (step s t (.begin (.header op))) others
    step reached t .advance =
      { client := { reached.client with headers := op.apply reached.client.headers }
        phase := fun u => if u = t then .idle else reached.phase u
        log := reached.log ++ [(t, .changed op)] } := by
  intro reached
  have hbegun : effect? s.client (s.phase t) (.begin (.header op)) =
      some ⟨.begun (.header op), .changing op, s.client⟩ := by rw [hidle]; rfl
  have hphase : reached.phase t = .changing op := phase_run_step hothers hbegun
  refine step_of_effect? (x := ⟨.changed op, .idle, _⟩) ?_
  rw [hphase, effect?, HeaderOperation.change_eq_ok.2 ⟨rfl, hwritten⟩]

/-- A task that asked for an envelope copies the entries that are there when it gets the lock. -/
theorem step_inquiry {q : Inquiry} (hidle : s.phase t = .idle) :
    let reached := run (step s t (.begin (.inquiry q))) others
    step reached t .advance =
      { reached with
        phase := fun u => if u = t then .building q reached.client.headers else reached.phase u
        log := reached.log ++ [(t, .copied q)] } := by
  intro reached
  have hbegun : effect? s.client (s.phase t) (.begin (.inquiry q)) =
      some ⟨.begun (.inquiry q), .asking q, s.client⟩ := by rw [hidle]; rfl
  have hphase : reached.phase t = .asking q := phase_run_step hothers hbegun
  exact step_of_effect? (x := ⟨.copied q, .building q reached.client.headers, reached.client⟩)
    (by rw [hphase]; rfl)

/-- With its copy a task builds its envelope, whatever others did since. -/
theorem step_building {q : Inquiry} {entries : List HeaderEntry} {envelope : Envelope}
    (hphase : s.phase t = .building q entries)
    (hbuild : Envelope.build entries q.body = .ok envelope) :
    let reached := run s others
    (step reached t .advance).client = reached.client ∧
      (step reached t .advance).log = reached.log ++ [(t, .built q envelope)] := by
  intro reached
  have hbuild' : { reached.client with headers := entries }.envelope q.body = .ok envelope := hbuild
  have hphase' : reached.phase t = .building q entries := by
    rw [phase_run_of_others hothers, hphase]
  rw [step_of_effect? (by rw [hphase', effect?, hbuild'])]
  exact ⟨rfl, rfl⟩

end Schedules

/-- An entry that is added after a copy was taken is in the client, and not in the copy. -/
example (c : Client) (q : Inquiry) (entry : HeaderEntry) :
    let s := run { client := c }
      [(0, .begin (.inquiry q)), (0, .advance),
        (1, .begin (.header (.addHeaderEntry entry))), (1, .advance)]
    s.phase 0 = .building q c.headers ∧ s.client = c.addEntry entry :=
  ⟨rfl, rfl⟩

/-! ## What a task has done -/

/-- After what stands in `before`, the task did first the one and then the others, and nothing else
up to the end of the log. -/
def Did (t : Nat) (log before : List (Nat × Event)) (first : Event) (others : List Event) : Prop :=
  ∃ since, log = before ++ (t, first) :: since ∧ (since.filter (·.1 = t)).map (·.2) = others

theorem Did.start (t : Nat) (log : List (Nat × Event)) (event : Event) :
    Did t (log ++ [(t, event)]) log event [] :=
  ⟨[], rfl, rfl⟩

/-- What other tasks do is none of its doing. -/
theorem Did.other {log before : List (Nat × Event)} {first : Event} {others : List Event}
    (h : Did t log before first others) (hne : u ≠ t) (event : Event) :
    Did t (log ++ [(u, event)]) before first others := by
  obtain ⟨since, rfl, hsince⟩ := h
  refine ⟨since ++ [(u, event)], by simp, ?_⟩
  rw [List.filter_append, List.filter_singleton, decide_eq_false hne, Bool.cond_false,
    List.append_nil]
  exact hsince

theorem Did.next {log before : List (Nat × Event)} {first : Event} {others : List Event}
    (h : Did t log before first others) (event : Event) :
    Did t (log ++ [(t, event)]) before first (others ++ [event]) := by
  obtain ⟨since, rfl, hsince⟩ := h
  refine ⟨since ++ [(t, event)], by simp, ?_⟩
  rw [List.filter_append, List.map_append, hsince]
  simp

/-! ## The invariant -/

/-- The request is that of the call when the client holds the entries after `before`. -/
def Requested (c : Client) (before : List (Nat × Event)) (q : Inquiry) (call : Call)
    (request : Http.Request) : Prop :=
  { c with headers := entriesAfter c.headers before }.request call.ids call.action q.body =
    .ok request

/-- An answer is taken in as that of a call which has the client for itself. -/
theorem Requested.callEnvelope {before : List (Nat × Event)} {q : Inquiry} {call : Call}
    {request : Http.Request} (h : Requested c before q call request)
    (outcome : Except SoapError Http.Response) :
    { c with headers := entriesAfter c.headers before }.callEnvelope (fun _ => some outcome) call.ids
        call.action q.body =
      { sent := some request, result := some (outcome.bind decodeResponse) } := by
  unfold Client.callEnvelope
  rw [h]
  rfl

/-- How a task came to stand where it stands. `c` is the client that all began with. -/
def Phase.Reached (c : Client) (log : List (Nat × Event)) (t : Nat) : Phase → Prop
  | .idle => True
  | .changing op => ∃ before, Did t log before (.begun (.header op)) []
  | .asking q => ∃ before, Did t log before (.begun (.inquiry q)) []
  | .building q entries =>
    ∃ before, Did t log before (.copied q) [] ∧ entries = entriesAfter c.headers before
  | .encoding q call envelope =>
    ∃ before, Did t log before (.copied q) [.built q envelope] ∧ q.call = some call ∧
      Envelope.build (entriesAfter c.headers before) q.body = .ok envelope
  | .waiting q =>
    ∃ before call envelope request,
      Did t log before (.copied q) [.built q envelope, .sent q envelope request] ∧
        q.call = some call ∧ Requested c before q call request

/-- What an event says about what stands before it in the log. -/
def Event.Justified (c : Client) (log : List (Nat × Event)) (t : Nat) : Event → Prop
  | .changed op =>
    (∃ before, Did t log before (.begun (.header op)) []) ∧ ∀ cause, op ≠ .addHeader (.error cause)
  | .copied q => ∃ before, Did t log before (.begun (.inquiry q)) []
  | .built q envelope =>
    ∃ before, Did t log before (.copied q) [] ∧
      Envelope.build (entriesAfter c.headers before) q.body = .ok envelope
  | .sent q envelope request =>
    ∃ before call, Did t log before (.copied q) [.built q envelope] ∧ q.call = some call ∧
      Envelope.build (entriesAfter c.headers before) q.body = .ok envelope ∧
        c.encodeRequest call.ids call.action envelope = .ok request
  | .answered q result =>
    ∃ before call envelope request transport,
      Did t log before (.copied q) [.built q envelope, .sent q envelope request] ∧
        q.call = some call ∧
          { c with headers := entriesAfter c.headers before }.callEnvelope transport call.ids
            call.action q.body = { sent := some request, result := some result }
  | .begun _ | .failed _ | .abandoned => True

/-- What holds of every state that the client `c` can get into. -/
structure Inv (c : Client) (s : State) : Prop where
  client : s.client = { c with headers := entriesAfter c.headers s.log }
  phase : ∀ t, (s.phase t).Reached c s.log t
  history : ∀ before t event, before ++ [(t, event)] <+: s.log → event.Justified c before t

theorem Inv.initial (c : Client) : Inv c { client := c } := by
  refine ⟨rfl, fun _ => trivial, fun before t event h => ?_⟩
  rw [List.prefix_nil] at h
  simp at h

/-- What others do leaves a task where it stands. -/
theorem Phase.Reached.other {log : List (Nat × Event)} {p : Phase} (h : p.Reached c log t)
    (hne : u ≠ t) (event : Event) : p.Reached c (log ++ [(u, event)]) t := by
  cases p with
  | idle => trivial
  | changing op | asking q =>
    obtain ⟨before, h⟩ := h
    exact ⟨before, h.other hne event⟩
  | building q entries =>
    obtain ⟨before, h, hentries⟩ := h
    exact ⟨before, h.other hne event, hentries⟩
  | encoding q call envelope =>
    obtain ⟨before, h, hbuild⟩ := h
    exact ⟨before, h.other hne event, hbuild⟩
  | waiting q =>
    obtain ⟨before, call, envelope, request, h, hrequest⟩ := h
    exact ⟨before, call, envelope, request, h.other hne event, hrequest⟩

/-- Only a change adds to the changes. -/
theorem entriesAfter_concat (entries : List HeaderEntry) (log : List (Nat × Event)) (t : Nat)
    {event : Event} (h : ∀ op, event ≠ .changed op) :
    entriesAfter entries (log ++ [(t, event)]) = entriesAfter entries log := by
  rw [entriesAfter_append]
  cases event with
  | changed op => exact absurd rfl (h op)
  | begun op | copied q | built q envelope | sent q envelope request | answered q result
  | failed cause | abandoned => rfl

/-- A move that a task takes is justified by what stands in the log, and leaves the task where the
longer log says. -/
theorem Inv.taken (hinv : Inv c s) {x : Effect} (h : Taken s.client (s.phase t) x) :
    x.event.Justified c s.log t ∧ x.phase.Reached c (s.log ++ [(t, x.event)]) t ∧
      x.client = { c with headers := entriesAfter c.headers (s.log ++ [(t, x.event)]) } := by
  have hphase := hinv.phase t
  have hkept : ∀ {event : Event}, (∀ op, event ≠ .changed op) →
      s.client = { c with headers := entriesAfter c.headers (s.log ++ [(t, event)]) } := by
    intro event hevent
    rw [entriesAfter_concat c.headers s.log t hevent]
    exact hinv.client
  -- what the phase says of the past is used in each case and carried on to the longer log
  generalize hp : s.phase t = p at h hphase
  cases h with
  | beginHeader op => exact ⟨trivial, ⟨s.log, .start t s.log _⟩, hkept (by simp)⟩
  | beginInquiry q => exact ⟨trivial, ⟨s.log, .start t s.log _⟩, hkept (by simp)⟩
  | change hchange =>
    obtain ⟨hchanged, hwritten⟩ := HeaderOperation.change_eq_ok.1 hchange
    refine ⟨⟨hphase, hwritten⟩, trivial, ?_⟩
    rw [hinv.client] at hchanged
    rw [entriesAfter_append]
    exact hchanged
  | copy q =>
    refine ⟨hphase, ⟨s.log, .start t s.log _, ?_⟩, hkept (by simp)⟩
    rw [hinv.client]
  | look hbuild =>
    obtain ⟨before, hdid, rfl⟩ := hphase
    exact ⟨⟨before, hdid, hbuild⟩, trivial, hkept (by simp)⟩
  | build hbuild hcall =>
    obtain ⟨before, hdid, rfl⟩ := hphase
    exact ⟨⟨before, hdid, hbuild⟩, ⟨before, hdid.next _, hcall, hbuild⟩, hkept (by simp)⟩
  | send hencode =>
    obtain ⟨before, hdid, hcall, hbuild⟩ := hphase
    rw [hinv.client] at hencode
    have hrequest := bind_eq_ok.2 ⟨_, hbuild, hencode⟩
    exact ⟨⟨before, _, hdid, hcall, hbuild, hencode⟩,
      ⟨before, _, _, _, hdid.next _, hcall, hrequest⟩, hkept (by simp)⟩
  | answer q outcome =>
    -- the answer belongs to the request that this task sent, built from its copy
    obtain ⟨before, call, envelope, request, hdid, hcall, hrequest⟩ := hphase
    exact ⟨⟨before, call, envelope, request, _, hdid, hcall, hrequest.callEnvelope outcome⟩, trivial,
      hkept (by simp)⟩
  | fail p cause => exact ⟨trivial, trivial, hkept (by simp [Effect.failed])⟩
  | abandon p => exact ⟨trivial, trivial, hkept (by simp)⟩

/-- One move keeps the invariant. -/
theorem Inv.step (hinv : Inv c s) (t : Nat) (move : Move) : Inv c (step s t move) := by
  unfold Shared.step
  split
  · exact hinv
  · next x hx =>
    obtain ⟨hevent, hphase, hclient⟩ := hinv.taken (taken_of_effect? hx)
    refine ⟨hclient, fun u => ?_, fun before u event h => ?_⟩
    · show Phase.Reached c (s.log ++ [(t, x.event)]) u (if u = t then x.phase else s.phase u)
      by_cases hu : u = t
      · subst hu
        rw [if_pos rfl]
        exact hphase
      · rw [if_neg hu]
        exact (hinv.phase u).other (Ne.symm hu) _
    · -- the event is the new one, or an old one
      rcases List.prefix_concat_iff.1 h with hnew | hold
      · obtain ⟨rfl, hlast⟩ := List.append_inj' hnew rfl
        obtain ⟨rfl, rfl⟩ := Prod.mk.inj (List.cons.inj hlast).1
        exact hevent
      · exact hinv.history before u event hold

/-- Every schedule keeps the invariant. -/
theorem inv_run (hinv : Inv c s) (schedule : List (Nat × Move)) : Inv c (run s schedule) := by
  induction schedule generalizing s with
  | nil => exact hinv
  | cons m schedule ih => exact ih (hinv.step m.1 m.2)

/-! ## Additions -/

/-- Whether the operation leaves the entries that are there. -/
def HeaderOperation.IsAddition : HeaderOperation → Prop
  | .addHeader _ | .addHeaderEntry _ => True
  | .setHeaders _ | .clearHeaders => False

/-- The entries that an event puts after those that are there. -/
def Event.appended : Event → List HeaderEntry
  | .changed (.addHeader (.ok block)) => [{ block }]
  | .changed (.addHeaderEntry entry) => [entry]
  | _ => []

/-- Additions are put after one another, in the order of the log. -/
theorem entriesAfter_of_additions {log : List (Nat × Event)}
    (h : ∀ t op, (t, .changed op) ∈ log → op.IsAddition) (entries : List HeaderEntry) :
    entriesAfter entries log = entries ++ log.flatMap (·.2.appended) := by
  induction log generalizing entries with
  | nil => exact (List.append_nil entries).symm
  | cons p log ih =>
    obtain ⟨t, event⟩ := p
    have hrest := fun entries => ih (fun u op hop => h u op (List.mem_cons_of_mem _ hop)) entries
    have hfirst : ∀ op, event = .changed op → op.IsAddition := by
      rintro op rfl
      exact h t op (List.mem_cons_self ..)
    show entriesAfter (entriesAfter entries [(t, event)]) log = _
    rw [hrest, List.flatMap_cons, ← List.append_assoc]
    congr 1
    cases event with
    | changed op =>
      cases op with
      | addHeader value =>
        cases value with
        | ok block => rfl
        | error cause => exact (List.append_nil entries).symm
      | addHeaderEntry entry => rfl
      | setHeaders _ | clearHeaders => exact (hfirst _ rfl).elim
    | begun op | copied q | built q envelope | sent q envelope request | answered q result
    | failed cause | abandoned => exact (List.append_nil entries).symm

/-- What becomes of any schedule. The entries are those that the changes in the log make of the
first ones. Every envelope was built from the entries that were there when its task took its copy,
and every request that was sent carries that envelope; what happened after the copy shows in neither.
An answer is taken in as that of a call which has a client with these entries for itself. Nothing but
a header operation changes the entries, and none that could not write its value. If all changes are
additions, none of them gets lost, and every copy was an initial part of what is there in the end. -/
theorem run_spec (c : Client) (schedule : List (Nat × Move)) :
    let s := run { client := c } schedule
    s.client = { c with headers := entriesAfter c.headers s.log } ∧
    (∀ past t q envelope, past ++ [(t, .built q envelope)] <+: s.log →
      ∃ before, Did t past before (.copied q) [] ∧
        Envelope.build (entriesAfter c.headers before) q.body = .ok envelope ∧
          List.Forall₂ HeaderEntry.Carried (entriesAfter c.headers before) envelope.headers) ∧
    (∀ past t q envelope request, past ++ [(t, .sent q envelope request)] <+: s.log →
      ∃ before call, Did t past before (.copied q) [.built q envelope] ∧ q.call = some call ∧
        Envelope.build (entriesAfter c.headers before) q.body = .ok envelope ∧
          c.encodeRequest call.ids call.action envelope = .ok request) ∧
    (∀ past t q result, past ++ [(t, .answered q result)] <+: s.log →
      ∃ before call envelope request transport,
        Did t past before (.copied q) [.built q envelope, .sent q envelope request] ∧
          q.call = some call ∧
            { c with headers := entriesAfter c.headers before }.callEnvelope transport call.ids
              call.action q.body = { sent := some request, result := some result }) ∧
    (∀ past t op, past ++ [(t, .changed op)] <+: s.log →
      (∃ before, Did t past before (.begun (.header op)) []) ∧
        ∀ cause, op ≠ .addHeader (.error cause)) ∧
    ((∀ t op, (t, .changed op) ∈ s.log → op.IsAddition) →
      s.client.headers = c.headers ++ s.log.flatMap (·.2.appended) ∧
        ∀ before, before <+: s.log → entriesAfter c.headers before <+: s.client.headers) := by
  intro s
  have hinv : Inv c s := inv_run (Inv.initial c) schedule
  have hheaders : s.client.headers = entriesAfter c.headers s.log := by rw [hinv.client]
  refine ⟨hinv.client, ?_, ?_, ?_, ?_, ?_⟩
  · intro past t q envelope h
    obtain ⟨before, hdid, hbuild⟩ := hinv.history past t _ h
    exact ⟨before, hdid, hbuild, Envelope.carried_of_build hbuild⟩
  · intro past t q envelope request h
    exact hinv.history past t _ h
  · intro past t q result h
    exact hinv.history past t _ h
  · intro past t op h
    exact hinv.history past t _ h
  · intro hadditions
    refine ⟨by rw [hheaders, entriesAfter_of_additions hadditions], fun before hbefore => ?_⟩
    obtain ⟨rest, hrest⟩ := hbefore
    -- what comes after the copy only adds to it
    have hsuffix : ∀ u op, (u, .changed op) ∈ rest → op.IsAddition := fun u op hop =>
      hadditions u op (by rw [← hrest]; exact List.mem_append_right _ hop)
    rw [hheaders, ← hrest, entriesAfter_append, entriesAfter_of_additions hsuffix]
    exact List.prefix_append ..

end Shared

end SoapMtom
