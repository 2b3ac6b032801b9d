import VerifierClient.Proofs.Channel.Order
import VerifierClient.Proofs.Channel.Sequences

/-!
# Full-buffer queries that wait

At most one full-buffer query is in flight. Of those submitted meanwhile only the
last one is kept, and it goes out when the one in flight has ended, behind the
ordinary queries that were held back. On a channel that is alive and whose writer
stays open, the last full-buffer query is never lost, and one that another has
superseded is never written.

* `Channel.Turn` — what an operation means for the full-buffer query in flight and
  for the one that waits;
* `Channel.run_during` — what has come together while one sequence is in flight;
* `Channel.launches_eq` — the full-buffer queries that a run writes are those that no
  other one supersedes;
* `Channel.last_request_wins` — the result for all runs.
-/

namespace VerifierClient.Channel

-- ---------------------------------------------------------------------------
-- Requests
-- ---------------------------------------------------------------------------

/-- The full-buffer query that waits for the end of the one in flight. -/
def waiting? (c : Channel) : Option Query := c.fullBuffer.bind BufferSession.replacement

/-- The full-buffer query that the operation submits, if the channel accepts it. -/
def requested (c : Channel) (op : Op) : List Query :=
  match op with
  | .startFullBuffer query =>
    match (c.startFullBuffer query).2 with
    | .ok _ => [query]
    | .error _ => []
  | _ => []

/-- The full-buffer queries that a run accepts. -/
def requests : Channel → List Op → List Query := along fun c op _ => c.requested op

/-- Whether the sequence in flight ends before another full-buffer query is submitted. -/
def endsFirst (c : Channel) : List Op → Bool
  | [] => false
  | .startFullBuffer _ :: _ => false
  | .receive line :: rest => (c.endedBy? line).isSome || (c.receive line).endsFirst rest
  | op :: rest => (c.step op).endsFirst rest

/-- The full-buffer queries that a run accepts while nothing is in flight, or as the
last ones before the sequence in flight ends. -/
def unsuperseded (c : Channel) : List Op → List Query
  | [] => []
  | op :: rest =>
    (if c.current?.isNone || (c.step op).endsFirst rest then c.requested op else []) ++
      (c.step op).unsuperseded rest

/-- The id in a mark for the end of a sequence. -/
def Mark.finished? : Mark → Option QueryId
  | finished id => some id
  | _ => none

theorem waiting?_of_idle {c : Channel} (h : c.current? = none) : c.waiting? = none := by
  rw [waiting?, current?_eq_none_iff.1 h, Option.bind_none]

theorem waiting?_of_flight {c : Channel} {session : BufferSession}
    (hflight : c.fullBuffer = some session) : c.waiting? = session.replacement := by
  rw [waiting?, hflight, Option.bind_some]

@[simp] theorem register_waiting? (c : Channel) (waited : Bool) (id : QueryId) :
    (c.register waited id).waiting? = c.waiting? := by
  rw [waiting?, register_fullBuffer, waiting?]

theorem endsFirst_quiet {c : Channel} {op : Op} (hop : ∀ query, op ≠ .startFullBuffer query)
    (hline : ∀ line, op = .receive line → c.endedBy? line = none) (rest : List Op) :
    c.endsFirst (op :: rest) = (c.step op).endsFirst rest := by
  cases op with
  | startFullBuffer query => exact absurd rfl (hop query)
  | receive line => rw [endsFirst, hline line rfl, Option.isSome_none, Bool.false_or, step]
  | _ => rfl

theorem endsFirst_of_ended {c : Channel} {line : String} {id : QueryId}
    (h : c.endedBy? line = some id) (rest : List Op) :
    c.endsFirst (.receive line :: rest) = true := by
  rw [endsFirst, h, Option.isSome_some, Bool.true_or]

theorem requested_of_other {op : Op} (hop : ∀ query, op ≠ .startFullBuffer query) (c : Channel) :
    c.requested op = [] := by
  cases op with
  | startFullBuffer query => exact absurd rfl (hop query)
  | _ => rfl

theorem requested_receive (c : Channel) (line : String) : c.requested (.receive line) = [] := rfl

theorem launched_startFullBuffer (c c' : Channel) (query : Query) :
    launched c (.startFullBuffer query) c' = written c c' :=
  fullBuffer?_fullBuffer _

-- ---------------------------------------------------------------------------
-- What an operation means for the query that waits
-- ---------------------------------------------------------------------------

/-- A channel on which a session goes on. -/
structure Open (c : Channel) : Prop where
  fits : c.Fits
  healthy : c.Healthy

theorem Open.step {c : Channel} (hc : c.Open) {op : Op} (hop : op.isTraffic = true) :
    (c.step op).Open :=
  have hmove := step_move hc.fits op
  ⟨hmove.fits hc.fits, hmove.healthy hc.healthy hop⟩

/-- An open channel accepts every full-buffer query. -/
theorem Open.accepts {c : Channel} (hc : c.Open) (query : Query) :
    (c.startFullBuffer query).2 = .ok () := by
  obtain ⟨halive, hwriter⟩ := hc.healthy
  rw [startFullBuffer, if_pos halive]
  cases c.fullBuffer with
  | some session => rfl
  | none => rw [dispatchFullBuffer_of_writable hwriter]

theorem Open.requested {c : Channel} (hc : c.Open) (query : Query) :
    c.requested (.startFullBuffer query) = [query] := by
  simp only [Channel.requested, hc.accepts query]

theorem Open.run {c : Channel} (hc : c.Open) {ops : List Op}
    (htraffic : ∀ op ∈ ops, op.isTraffic = true) : (c.run ops).Open := by
  induction ops generalizing c with
  | nil => exact hc
  | cons op rest ih =>
    exact ih (hc.step (htraffic op List.mem_cons_self))
      fun op h => htraffic op (List.mem_cons_of_mem _ h)

theorem new_open (role : Role) : Open { role } := ⟨nofun, rfl, rfl⟩

theorem run_open (role : Role) {ops : List Op} (htraffic : ∀ op ∈ ops, op.isTraffic = true) :
    (run { role } ops).Open :=
  (new_open role).run htraffic

inductive Turn (c : Channel) : Op → Channel → Prop
  /-- what is in flight stays so, and what waits goes on waiting -/
  | quiet {op : Op} {c' : Channel} (hop : ∀ query, op ≠ .startFullBuffer query)
      (hline : ∀ line, op = .receive line → c.endedBy? line = none)
      (hlaunched : launched c op c' = []) (hcurrent : c'.current? = c.current?)
      (hwaiting : c'.waiting? = c.waiting?)
      (hheld : c.current? ≠ none → c'.heldBack = c.heldBack ++ c.submitted op) : Turn c op c'
  /-- nothing is in flight: the query is written at once -/
  | launch {query : Query} {c' : Channel} (hidle : c.current? = none)
      (hwritten : written c c' = [⟨c.nextId, query⟩]) (hcurrent : c'.current? = some c.nextId)
      (hwaiting : c'.waiting? = none) (hheld : c'.heldBack = []) :
      Turn c (.startFullBuffer query) c'
  /-- the query takes the place of the one that waited -/
  | replace {query : Query} {c' : Channel} {id : QueryId} (hflight : c.current? = some id)
      (hwritten : written c c' = []) (hcurrent : c'.current? = some id)
      (hwaiting : c'.waiting? = some query) (hheld : c'.heldBack = c.heldBack) :
      Turn c (.startFullBuffer query) c'
  /-- the sequence in flight ends: what was held back goes out, and then what waited -/
  | finish {line : String} {c' : Channel} {id : QueryId} {next : Option Envelope}
      (hended : c.endedBy? line = some id) (hnext : next.map Envelope.query = c.waiting?)
      (hwritten : written c c' = c.heldBack ++ next.toList)
      (hcurrent : c'.current? = next.map Envelope.id) (hwaiting : c'.waiting? = none)
      (hheld : c'.heldBack = []) : Turn c (.receive line) c'

section Moves

variable {c c' : Channel} {op : Op}

theorem submit_ne_startFullBuffer (waited : Bool) (query query' : Query) :
    Op.submit waited query ≠ .startFullBuffer query' := by
  cases waited <;> intro h <;> cases h

theorem submit_ne_receive (waited : Bool) (query : Query) (line : String) :
    Op.submit waited query ≠ .receive line := by
  cases waited <;> intro h <;> cases h

/-- An ordinary query is written if nothing is in flight, and held back otherwise. -/
theorem Turn.of_submit {waited : Bool} {query : Query} (hcurrent : c'.current? = c.current?)
    (hwaiting : c'.waiting? = c.waiting?)
    (hheld : c.current? ≠ none →
      c'.heldBack = c.heldBack ++ c.submitted (.submit waited query)) :
    Turn c (.submit waited query) c' :=
  .quiet (submit_ne_startFullBuffer waited query)
    (fun line h => absurd h (submit_ne_receive waited query line)) (launched_submit ..) hcurrent
    hwaiting hheld

/-- A line that does not end the sequence in flight. -/
theorem Turn.of_line {line : String} (hline : c.endedBy? line = none)
    (haccepted : c'.accepted = c.accepted) (hbuffer : c'.fullBuffer = c.fullBuffer) :
    Turn c (.receive line) c' := by
  have hended : ∀ line', Op.receive line = .receive line' → c.endedBy? line' = none := by
    rintro _ ⟨⟩
    exact hline
  refine .quiet (fun _ h => by cases h) hended (launched_nil haccepted hended) ?_ ?_ ?_
  · rw [current?, hbuffer, current?]
  · rw [waiting?, hbuffer, waiting?]
  · intro _
    rw [heldBack, hbuffer, ← heldBack]
    exact (List.append_nil _).symm

theorem Turn.of_finish {line : String} {session : BufferSession} {message : StreamMessage}
    (next : Option Envelope) (hflight : c.fullBuffer = some session)
    (hmessage : StreamMessage.ofLine? session.current line = some message)
    (hfinished : message.isFinished = true)
    (hnext : next.map Envelope.query = session.replacement)
    (haccepted : c'.accepted = c.accepted ++ session.queued ++ next.toList)
    (hcurrent : c'.current? = next.map Envelope.id) (hwaiting : c'.waiting? = none)
    (hheld : c'.heldBack = []) : Turn c (.receive line) c' := by
  have hended : c.endedBy? line = some session.current := by
    rw [endedBy?_of_message hflight hmessage, if_pos hfinished]
  refine .finish hended ?_ ?_ hcurrent hwaiting hheld
  · rw [hnext, waiting?_of_flight hflight]
  · rw [heldBack_of_flight hflight]
    exact written_append (by rw [haccepted, List.append_assoc])

theorem move_turn (h : Move c op c') (hc : c.Healthy) (hop : op.isTraffic = true) :
    Turn c op c' := by
  obtain ⟨halive, hwriter⟩ := hc
  cases h with
  | refuse _ hdead => simp [halive] at hdead
  | lose _ _ hclosed => simp [hwriter] at hclosed
  | abandon _ _ _ _ hclosed => simp [hwriter] at hclosed
  | write _ hidle _ =>
    exact .of_submit (register_current? ..) (register_waiting? ..)
      (absurd (current?_of_idle hidle))
  | hold _ hflight =>
    refine .of_submit ?_ ?_ fun _ => ?_
    · rw [register_current?, current?_of_flight hflight]
      rfl
    · rw [register_waiting?, waiting?_of_flight hflight]
      rfl
    · rw [submitted_submit halive (.inr hwriter), register_heldBack, heldBack_of_flight hflight]
      rfl
  | launch _ hidle _ => exact .launch (current?_of_idle hidle) (written_append rfl) rfl rfl rfl
  | replace _ hflight =>
    refine .replace (current?_of_flight hflight) (written_nil rfl) rfl rfl ?_
    rw [heldBack_of_flight hflight]
    rfl
  | cancel =>
    refine .quiet (fun _ h => by cases h) (fun _ h => by cases h) ?_ (register_current? ..)
      (register_waiting? ..) fun _ => ?_
    · rw [launched, marks, List.filterMap_map]
      exact List.filterMap_eq_nil_iff.2 fun _ _ => rfl
    · rw [register_heldBack]
      exact (List.append_nil _).symm
  | skip hidle =>
    exact .quiet (fun _ h => by cases h) (fun _ h => by cases h) (launched_of_request rfl rfl) rfl
      rfl (absurd (current?_of_idle hidle))
  | stream hflight hmessage hgoing =>
    refine .of_line ?_ rfl rfl
    rw [endedBy?_of_message hflight hmessage, if_neg (Bool.eq_false_iff.1 hgoing)]
  | @finish _ session message hflight hmessage hfinished hlast =>
    refine .of_finish none hflight hmessage hfinished hlast.symm ?_ rfl rfl rfl
    rw [release_accepted (c := c.emit (.stream message)) hwriter, Option.toList_none,
      List.append_nil]
    rfl
  | @relaunch _ session message query hflight hmessage hfinished hnext _ =>
    refine .of_finish (some ⟨c.nextId, query⟩) hflight hmessage hfinished hnext.symm ?_ rfl rfl rfl
    exact congrArg (· ++ [_]) (release_accepted (c := c.emit (.stream message)) hwriter session)
  | aside hmessage haside =>
    have hended := endedBy?_of_none hmessage
    cases haside <;> exact .of_line hended rfl rfl
  | writer hchange => simp [(traffic_goes_on hop).1] at hchange
  | ended hend => simp [(traffic_goes_on hop).2] at hend
  | again hend => simp [(traffic_goes_on hop).2] at hend

end Moves

theorem Open.turn {c : Channel} (hc : c.Open) {op : Op} (hop : op.isTraffic = true) :
    Turn c op (c.step op) :=
  move_turn (step_move hc.fits op) hc.healthy hop

-- ---------------------------------------------------------------------------
-- What a run writes
-- ---------------------------------------------------------------------------

theorem launched_of_finish {c c' : Channel} {line : String} {id : QueryId}
    {next : Option Envelope} (hended : c.endedBy? line = some id)
    (hwritten : written c c' = c.heldBack ++ next.toList) :
    launched c (.receive line) c' = next.toList := by
  rw [launched_of_ended hended, hwritten, List.drop_left]

/-- The full-buffer queries that are written are the one that waits, if the sequence in
flight ends before another one is submitted, and of those submitted the ones that none
supersedes. -/
theorem launches_eq {c : Channel} (hc : c.Open) {ops : List Op}
    (htraffic : ∀ op ∈ ops, op.isTraffic = true) :
    (launches c ops).map Envelope.query =
      (if c.endsFirst ops then c.waiting?.toList else []) ++ c.unsuperseded ops := by
  induction ops generalizing c with
  | nil => rfl
  | cons op rest ih =>
    have hop := htraffic op List.mem_cons_self
    have hrest := ih (hc.step hop) fun op h => htraffic op (List.mem_cons_of_mem _ h)
    have hlaunches : (launches c (op :: rest)).map Envelope.query =
        (launched c op (c.step op)).map Envelope.query ++
          ((if (c.step op).endsFirst rest then (c.step op).waiting?.toList else []) ++
            (c.step op).unsuperseded rest) := by
      rw [launches, along, List.map_append, ← hrest, launches]
    rw [hlaunches, unsuperseded]
    cases hc.turn hop with
    | quiet hother hline hlaunched _ hwaiting =>
      rw [hlaunched, hwaiting, endsFirst_quiet hother hline, requested_of_other hother, ite_self]
      rfl
    | launch hidle hwritten _ hwaiting =>
      rw [launched_startFullBuffer, hwritten, hwaiting, hc.requested, hidle, waiting?_of_idle hidle]
      simp
    | replace hflight hwritten _ hwaiting =>
      rw [launched_startFullBuffer, hwritten, hwaiting, hc.requested, hflight]
      simp [endsFirst]
    | finish hended hnext hwritten _ hwaiting =>
      rw [launched_of_finish hended hwritten, hwaiting, endsFirst_of_ended hended, ← hnext,
        requested_receive]
      simp [Option.toList_map]

theorem unsuperseded_sublist (c : Channel) (ops : List Op) :
    (c.unsuperseded ops).Sublist (requests c ops) := by
  induction ops generalizing c with
  | nil => exact .slnil
  | cons op rest ih =>
    rw [unsuperseded, requests, along]
    refine List.Sublist.append ?_ (ih (c.step op))
    split
    · exact .refl _
    · exact List.nil_sublist _

/-- The last full-buffer query that was submitted waits, or else it is the last one that
was written. -/
theorem getLast?_requests {role : Role} {ops : List Op}
    (htraffic : ∀ op ∈ ops, op.isTraffic = true) :
    (requests { role } ops).getLast? =
      (run { role } ops).waiting?.or ((launches { role } ops).map Envelope.query).getLast? := by
  refine run_induction (P := fun ops c => (∀ op ∈ ops, op.isTraffic = true) →
    (requests { role } ops).getLast? =
      c.waiting?.or ((launches { role } ops).map Envelope.query).getLast?) ?_ ?_ ops htraffic
  · exact fun _ => rfl
  · intro past op ih htraffic
    have hpast : ∀ op ∈ past, op.isTraffic = true :=
      fun op hop => htraffic op (List.mem_append_left _ hop)
    have hop := htraffic op (List.mem_append_right _ (List.mem_singleton_self op))
    have hlast := ih hpast
    have hc := run_open role hpast
    rw [requests, launches] at hlast ⊢
    rw [along_concat, along_concat, List.map_append]
    cases hc.turn hop with
    | quiet hother _ hlaunched _ hwaiting =>
      rw [requested_of_other hother, hlaunched, hwaiting]
      simpa using hlast
    | launch _ hwritten _ hwaiting =>
      rw [hc.requested, launched_startFullBuffer, hwritten, hwaiting]
      simp
    | replace _ _ _ hwaiting =>
      rw [hc.requested, hwaiting]
      simp
    | @finish _ _ _ next hended hnext hwritten _ hwaiting =>
      rw [requested_receive, launched_of_finish hended hwritten, hwaiting, List.append_nil, hlast,
        ← hnext]
      cases next <;> simp

-- ---------------------------------------------------------------------------
-- One sequence
-- ---------------------------------------------------------------------------

theorem finished_mem_marks {c c' : Channel} {line : String} {id : QueryId}
    (h : c.endedBy? line = some id) : .finished id ∈ marks c (.receive line) c' := by
  simp only [marks, h, List.cons_append, List.mem_cons_self]

theorem endedBy?_current {c : Channel} {line : String} {id : QueryId}
    (h : c.endedBy? line = some id) : c.current? = some id :=
  (Option.filter_eq_some_iff.1 h).1

/-- While one sequence is in flight no other starts. The ordinary queries submitted are
held back, and the last full-buffer query submitted waits. -/
theorem run_during {c : Channel} {id : QueryId} (hc : c.Open) (hflight : c.current? = some id)
    {during : List Op} (htraffic : ∀ op ∈ during, op.isTraffic = true)
    (hgoing : .finished id ∉ journal c during) :
    (c.run during).current? = some id ∧ launches c during = [] ∧
    (c.run during).heldBack = c.heldBack ++ submissions c during ∧
    (c.run during).waiting? = (requests c during).getLast?.or c.waiting? := by
  induction during generalizing c with
  | nil => exact ⟨hflight, rfl, (List.append_nil _).symm, rfl⟩
  | cons op rest ih =>
    have hop := htraffic op List.mem_cons_self
    have htraffic' : ∀ op ∈ rest, op.isTraffic = true :=
      fun op h => htraffic op (List.mem_cons_of_mem _ h)
    rw [journal, along, List.mem_append, not_or] at hgoing
    have hrun : c.run (op :: rest) = (c.step op).run rest := rfl
    rw [hrun, launches, submissions, requests, along, along, along, List.getLast?_append]
    cases hc.turn hop with
    | quiet hother _ hlaunched hcurrent hwaiting hheld =>
      obtain ⟨hid, hnone, hqueued, hlast⟩ :=
        ih (hc.step hop) (hcurrent.trans hflight) htraffic' hgoing.2
      refine ⟨hid, ?_, ?_, ?_⟩
      · rw [hlaunched, List.nil_append]
        exact hnone
      · rw [hqueued, hheld (by simp [hflight]), List.append_assoc]
        rfl
      · rw [hlast, hwaiting, requested_of_other hother, List.getLast?_nil, Option.or_none]
        rfl
    | launch hidle =>
      rw [hflight] at hidle
      cases hidle
    | replace hflight' hwritten hcurrent hwaiting hheld =>
      obtain ⟨hid, hnone, hqueued, hlast⟩ :=
        ih (hc.step hop) (hcurrent.trans (hflight'.symm.trans hflight)) htraffic' hgoing.2
      refine ⟨hid, ?_, ?_, ?_⟩
      · rw [launched_startFullBuffer, hwritten, List.nil_append]
        exact hnone
      · rw [hqueued, hheld]
        rfl
      · rw [hlast, hwaiting, hc.requested, Option.or_assoc]
        rfl
    | finish hended =>
      have hid : _ = some _ := (endedBy?_current hended).symm.trans hflight
      rw [Option.some.injEq] at hid
      subst hid
      exact absurd (finished_mem_marks hended) hgoing.1

/-- When a full-buffer query goes out, nothing is held back and none waits. -/
theorem Turn.launched {c c' : Channel} {op : Op} (h : Turn c op c') {e : Envelope}
    (hlaunched : launched c op c' = [e]) :
    c'.current? = some e.id ∧ c'.heldBack = [] ∧ c'.waiting? = none := by
  cases h with
  | quiet _ _ hnone =>
    rw [hnone] at hlaunched
    cases hlaunched
  | launch _ hwritten hcurrent hwaiting hheld =>
    rw [launched_startFullBuffer, hwritten] at hlaunched
    cases hlaunched
    exact ⟨hcurrent, hheld, hwaiting⟩
  | replace _ hwritten =>
    rw [launched_startFullBuffer, hwritten] at hlaunched
    cases hlaunched
  | @finish _ _ _ next hended _ hwritten hcurrent hwaiting hheld =>
    rw [launched_of_finish hended hwritten] at hlaunched
    cases next with
    | none => cases hlaunched
    | some e' =>
      cases hlaunched
      exact ⟨hcurrent, hheld, hwaiting⟩

/-- What the end of a sequence writes: the ordinary queries submitted since the sequence
began, and then the last full-buffer query of that time. -/
theorem end_of_sequence {c : Channel} {op : Op} {during : List Op} {e : Envelope} {line : String}
    (hc : c.Open) (hop : op.isTraffic = true) (htraffic : ∀ op ∈ during, op.isTraffic = true)
    (hlaunched : launched c op (c.step op) = [e])
    (hgoing : .finished e.id ∉ journal (c.step op) during)
    (hended : ((c.step op).run during).endedBy? line = some e.id) :
    launches (c.step op) during = [] ∧
    ∃ next : Option Envelope,
      next.map Envelope.query = (requests (c.step op) during).getLast? ∧
      written ((c.step op).run during) (((c.step op).run during).receive line) =
        submissions (c.step op) during ++ next.toList ∧
      (((c.step op).run during).receive line).current? = next.map Envelope.id := by
  obtain ⟨hcurrent, hheld, hwaiting⟩ := (hc.turn hop).launched hlaunched
  obtain ⟨hid, hnone, hqueued, hlast⟩ := run_during (hc.step hop) hcurrent htraffic hgoing
  rw [hheld, List.nil_append] at hqueued
  rw [hwaiting, Option.or_none] at hlast
  have hturn : Turn ((c.step op).run during) (.receive line)
      (((c.step op).run during).receive line) := ((hc.step hop).run htraffic).turn rfl
  cases hturn with
  | quiet _ hline =>
    rw [hline line rfl] at hended
    cases hended
  | @finish _ _ _ next _ hnext hwritten hcurrent =>
    refine ⟨hnone, next, ?_, ?_, hcurrent⟩
    · rw [hnext, hlast]
    · rw [hwritten, hqueued]

-- ---------------------------------------------------------------------------
-- All runs
-- ---------------------------------------------------------------------------

theorem launches_eq_filterMap (c : Channel) (ops : List Op) :
    launches c ops = (journal c ops).filterMap Mark.fullBuffer? := by
  induction ops generalizing c with
  | nil => rfl
  | cons op rest ih =>
    rw [launches, journal, along, along, List.filterMap_append]
    exact congrArg (launched c op (c.step op) ++ ·) (ih (c.step op))

/-- In an orderly journal every sequence has ended but the one in flight. -/
theorem Orderly.launches {js : List Mark} {s : Option QueryId} (h : Orderly js s) :
    (js.filterMap Mark.fullBuffer?).map Envelope.id = js.filterMap Mark.finished? ++ s.toList := by
  induction h with
  | nil => rfl
  | concat _ hpass ih =>
    rw [List.filterMap_append, List.filterMap_append, List.map_append, ih]
    cases hpass <;> simp [List.filterMap_cons, Mark.fullBuffer?, Mark.finished?]

/-- As long as the writer stays open and the channel alive, at most one full-buffer query
is in flight, and one that is submitted while none is goes out at once. What the end of a
sequence writes is the ordinary queries submitted during the sequence and then the last
full-buffer query of that time, which is in flight from then on. So a full-buffer query
is written iff no other one supersedes it, and the queries written are among those
submitted, in their order; when nothing is in flight, the last one submitted is the last
one written. -/
theorem last_request_wins {role : Role} {ops : List Op}
    (htraffic : ∀ op ∈ ops, op.isTraffic = true) :
    (launches { role } ops).map Envelope.id =
      (journal { role } ops).filterMap Mark.finished? ++ (run { role } ops).current?.toList ∧
    (∀ query, (run { role } ops).current? = none →
      written (run { role } ops) (run { role } (ops ++ [.startFullBuffer query])) =
        [⟨(run { role } ops).nextId, query⟩] ∧
      (run { role } (ops ++ [.startFullBuffer query])).current? =
        some (run { role } ops).nextId) ∧
    (∀ past op during e line, ops = past ++ op :: during →
      launched (run { role } past) op (run { role } (past ++ [op])) = [e] →
      .finished e.id ∉ journal (run { role } (past ++ [op])) during →
      (run { role } ops).endedBy? line = some e.id →
      launches (run { role } (past ++ [op])) during = [] ∧
      ∃ next : Option Envelope,
        next.map Envelope.query = (requests (run { role } (past ++ [op])) during).getLast? ∧
        written (run { role } ops) (run { role } (ops ++ [.receive line])) =
          submissions (run { role } (past ++ [op])) during ++ next.toList ∧
        (run { role } (ops ++ [.receive line])).current? = next.map Envelope.id) ∧
    (launches { role } ops).map Envelope.query = unsuperseded { role } ops ∧
    (unsuperseded { role } ops).Sublist (requests { role } ops) ∧
    ((run { role } ops).current? = none →
      ((launches { role } ops).map Envelope.query).getLast? = (requests { role } ops).getLast?) := by
  have hc := run_open role htraffic
  refine ⟨?_, ?_, ?_, ?_, unsuperseded_sublist _ ops, ?_⟩
  · rw [launches_eq_filterMap]
    exact (run_tidy role ops htraffic).orderly.launches
  · intro query hidle
    have hop : (Op.startFullBuffer query).isTraffic = true := rfl
    rw [run_concat]
    cases hc.turn hop with
    | quiet hother => exact absurd rfl (hother query)
    | launch _ hwritten hcurrent => exact ⟨hwritten, hcurrent⟩
    | replace hflight =>
      rw [hidle] at hflight
      cases hflight
  · rintro past op during e line rfl hlaunched hgoing hended
    have hpast : ∀ op ∈ past, op.isTraffic = true :=
      fun op h => htraffic op (List.mem_append_left _ h)
    have hop : op.isTraffic = true := htraffic op (by simp)
    have hduring : ∀ op ∈ during, op.isTraffic = true := fun op h => htraffic op (by simp [h])
    have hsplit : run { role } (past ++ op :: during) =
        ((run { role } past).step op).run during := run_append ..
    rw [run_concat] at hlaunched hgoing ⊢
    rw [run_concat, hsplit]
    rw [hsplit] at hended
    exact end_of_sequence (run_open role hpast) hop hduring hlaunched hgoing hended
  · have hempty : waiting? { role } = none := rfl
    rw [launches_eq (new_open role) htraffic, hempty]
    simp
  · intro hidle
    rw [getLast?_requests htraffic, waiting?_of_idle hidle, Option.none_or]

/-- During one sequence, two full-buffer queries and an ordinary one are submitted. -/
def supersededOnce : List Op :=
  [.startFullBuffer (.fullBuffer .full "let x = 1" none),
   .startFullBuffer (.fullBuffer .full "let x = 2" none),
   .sendDetached (.vfsAdd "let y = 1"),
   .startFullBuffer (.fullBuffer .full "let x = 3" none)]

/-- The third one is written after the ordinary query, and the second one never. -/
theorem supersededOnce_replaced :
    (∀ op ∈ supersededOnce, op.isTraffic = true) ∧
    (run { role := .strict } supersededOnce).endedBy? (finishedLine "1.4") = some ⟨1⟩ ∧
    (∃ next : Option Envelope,
      next.map Envelope.query = some (.fullBuffer .full "let x = 3" none) ∧
      written (run { role := .strict } supersededOnce)
          (run { role := .strict } (supersededOnce ++ [.receive (finishedLine "1.4")])) =
        [⟨⟨2⟩, .vfsAdd "let y = 1"⟩] ++ next.toList ∧
      (run { role := .strict } (supersededOnce ++ [.receive (finishedLine "1.4")])).current? =
        next.map Envelope.id) ∧
    (launches { role := .strict } supersededOnce).map Envelope.query =
      unsuperseded { role := .strict } supersededOnce := by
  have htraffic : ∀ op ∈ supersededOnce, op.isTraffic = true := by
    simp [supersededOnce, Op.isTraffic, Op.isRequest]
  have hended : (run { role := .strict } supersededOnce).endedBy? (finishedLine "1.4") =
      some ⟨1⟩ := by
    decide +kernel
  obtain ⟨-, -, hend, hwritten, -⟩ := @last_request_wins .strict _ htraffic
  obtain ⟨-, hnext⟩ := hend [] _ _ ⟨⟨1⟩, .fullBuffer .full "let x = 1" none⟩ _ rfl rfl
    List.not_mem_nil hended
  exact ⟨htraffic, hended, hnext, hwritten⟩

end VerifierClient.Channel
