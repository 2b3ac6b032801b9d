import VerifierClient.Proofs.Channel.Ids

/-!
# Whose messages the stream holds

The session is told of stream messages without the query they belong to. Cut after
each message that ends a sequence, the stream falls into the sequences of the
full-buffer queries in the order in which these were written: each piece holds
exactly the messages under the id of its query that came while it was in flight.

* `Channel.sequenceOf` — the messages that operations bring for one query;
* `Channel.sequences` — these for every full-buffer query that a run writes;
* `Channel.Flow` — what a move means for the sequence in flight;
* `Channel.stream_attribution` — the pieces of the stream are these sequences.
-/

namespace VerifierClient.Channel

-- ---------------------------------------------------------------------------
-- Sequences
-- ---------------------------------------------------------------------------

/-- The list, cut after each element that satisfies `p`. The last piece is what comes
after the last of them. -/
def cutAfter {α : Type} (p : α → Bool) : List α → List (List α)
  | [] => [[]]
  | x :: xs => if p x then [x] :: cutAfter p xs else (cutAfter p xs).modifyHead (x :: ·)

/-- The messages that the operations bring of the sequence of the query `id`: those of
the lines under its id, up to the message that ends the sequence, or to the end of
the channel. -/
def sequenceOf (id : QueryId) : List Op → List StreamMessage
  | [] => []
  | .receive line :: rest =>
    match StreamMessage.ofLine? id line with
    | some message => if message.isFinished then [message] else message :: sequenceOf id rest
    | none => sequenceOf id rest
  | op :: rest => if op.isEnd then [] else sequenceOf id rest

/-- The full-buffer query written in the step from `c` to `c'`, if there is one. -/
def launched (c : Channel) (op : Op) (c' : Channel) : List Envelope :=
  (marks c op c').filterMap Mark.fullBuffer?

/-- The full-buffer queries that a run writes. -/
def launches : Channel → List Op → List Envelope := along launched

/-- For every full-buffer query that a run writes, the messages that the rest of the
run brings of its sequence. -/
def sequences : Channel → List Op → List (List StreamMessage)
  | _, [] => []
  | c, op :: rest =>
    (launched c op (c.step op)).map (fun e => sequenceOf e.id rest) ++ sequences (c.step op) rest

-- ---------------------------------------------------------------------------
-- What a move means for the sequence in flight
-- ---------------------------------------------------------------------------

inductive Flow (c : Channel) : Op → Channel → Prop
  /-- the sequence in flight goes on, or there is still none -/
  | quiet {op : Op} {c' : Channel} (hend : op.isEnd = true → c.current? = none)
      (hline : ∀ line id, op = .receive line → c.current? = some id →
        StreamMessage.ofLine? id line = none)
      (hstreams : c'.streams = c.streams) (hcurrent : c'.current? = c.current?)
      (hlaunched : launched c op c' = []) : Flow c op c'
  /-- a sequence starts -/
  | launch {op : Op} {c' : Channel} {e : Envelope} (hop : op.isRequest = true)
      (halive : c.isAlive = true) (hidle : c.current? = none)
      (hstreams : c'.streams = c.streams) (hcurrent : c'.current? = some e.id)
      (hlaunched : launched c op c' = [e]) (hid : e.id = c.nextId)
      (hspent : c'.lastId = c.nextId.number) : Flow c op c'
  /-- a message of the sequence in flight -/
  | stream {line : String} {c' : Channel} {id : QueryId} {message : StreamMessage}
      (hflight : c.current? = some id) (hmessage : StreamMessage.ofLine? id line = some message)
      (hgoing : message.isFinished = false) (hstreams : c'.streams = c.streams ++ [message])
      (hcurrent : c'.current? = some id) (hlaunched : launched c (.receive line) c' = []) :
      Flow c (.receive line) c'
  /-- the message that ends the sequence in flight, after which the next one may start -/
  | finish {line : String} {c' : Channel} {id : QueryId} {message : StreamMessage}
      {next : Option Envelope} (hflight : c.current? = some id)
      (hmessage : StreamMessage.ofLine? id line = some message)
      (hfinished : message.isFinished = true) (hstreams : c'.streams = c.streams ++ [message])
      (hcurrent : c'.current? = next.map Envelope.id)
      (hlaunched : launched c (.receive line) c' = next.toList)
      (hid : ∀ e, next = some e → e.id = c.nextId ∧ c'.lastId = c.nextId.number) :
      Flow c (.receive line) c'
  /-- the channel ends, and with it the sequence in flight -/
  | ended {op : Op} {c' : Channel} (hend : op.isEnd = true) (hstreams : c'.streams = c.streams)
      (hcurrent : c'.current? = none) (hlaunched : launched c op c' = [])
      (hdead : c'.isAlive = false) : Flow c op c'

/-- A channel that can go on: the id in flight can be read back, and nothing is in
flight after the end. -/
structure Proper (c : Channel) : Prop where
  fits : c.Fits
  idle : c.isAlive = false → c.fullBuffer = none

theorem fullBuffer?_ordinary (envelopes : List Envelope) :
    (envelopes.map Mark.ordinary).filterMap Mark.fullBuffer? = [] := by
  rw [List.filterMap_map]
  exact List.filterMap_eq_nil_iff.2 fun _ _ => rfl

theorem fullBuffer?_fullBuffer (envelopes : List Envelope) :
    (envelopes.map Mark.fullBuffer).filterMap Mark.fullBuffer? = envelopes := by
  rw [List.filterMap_map]
  exact List.filterMap_some

theorem launched_nil {c c' : Channel} {op : Op} (h : c'.accepted = c.accepted)
    (hline : ∀ line, op = .receive line → c.endedBy? line = none) : launched c op c' = [] := by
  rw [launched, marks_nil h hline]
  rfl

theorem launched_of_request {c c' : Channel} {op : Op} (hop : op.isRequest = true)
    (h : c'.accepted = c.accepted) : launched c op c' = [] := by
  rw [launched, marks_of_request hop h]
  rfl

theorem launched_submit (c c' : Channel) (waited : Bool) (query : Query) :
    launched c (.submit waited query) c' = [] := by
  rw [launched, marks_submit, fullBuffer?_ordinary]

/-- When a sequence ends, what goes out after the queries held back is the next
full-buffer query. -/
theorem launched_of_ended {c c' : Channel} {line : String} {id : QueryId}
    (h : c.endedBy? line = some id) :
    launched c (.receive line) c' = (written c c').drop c.heldBack.length := by
  simp only [launched, marks, h, List.cons_append, List.filterMap_cons, Mark.fullBuffer?,
    List.filterMap_append, fullBuffer?_ordinary, fullBuffer?_fullBuffer, List.nil_append]

section Moves

variable {c c' : Channel} {op : Op}

theorem Flow.of_request (hop : op.isRequest = true) (hstreams : c'.streams = c.streams)
    (hcurrent : c'.current? = c.current?) (hlaunched : launched c op c' = []) : Flow c op c' := by
  refine .quiet ?_ ?_ hstreams hcurrent hlaunched
  · cases op <;> simp [Op.isRequest, Op.isEnd] at hop ⊢
  · rintro line id rfl
    cases hop

theorem Flow.of_finish {line : String} {session : BufferSession} {message : StreamMessage}
    (next : Option Envelope) (hflight : c.fullBuffer = some session)
    (hmessage : StreamMessage.ofLine? session.current line = some message)
    (hfinished : message.isFinished = true) (hstreams : c'.streams = c.streams ++ [message])
    (hcurrent : c'.current? = next.map Envelope.id)
    (hwritten : (written c c').drop session.queued.length = next.toList)
    (hid : ∀ e, next = some e → e.id = c.nextId ∧ c'.lastId = c.nextId.number) :
    Flow c (.receive line) c' := by
  refine .finish (current?_of_flight hflight) hmessage hfinished hstreams hcurrent ?_ hid
  have hended : c.endedBy? line = some session.current := by
    rw [endedBy?_of_message hflight hmessage, if_pos hfinished]
  rw [launched_of_ended hended, heldBack_of_flight hflight, hwritten]

theorem move_flow (hc : c.Proper) (h : Move c op c') : Flow c op c' := by
  have hnone : ∀ e : Envelope, none = some e → e.id = c.nextId ∧ c'.lastId = c.nextId.number := by
    intro e he
    cases he
  cases h with
  | refuse hop => exact .of_request hop rfl rfl (launched_of_request hop rfl)
  | lose hop => exact .of_request hop rfl rfl (launched_of_request hop rfl)
  | write =>
    exact .of_request (isRequest_submit ..) (register_streams ..) (register_current? ..)
      (launched_submit ..)
  | hold _ hflight =>
    refine .of_request (isRequest_submit ..) (register_streams ..) ?_ (launched_submit ..)
    rw [register_current?, current?_of_flight hflight]
    rfl
  | @launch query halive hidle _ =>
    have hwritten : written c (c.launch query) = [⟨c.nextId, query⟩] := written_append rfl
    refine .launch (e := ⟨c.nextId, query⟩) rfl halive (current?_of_idle hidle) rfl rfl ?_ rfl rfl
    rw [launched, marks, hwritten]
    rfl
  | replace _ hflight =>
    refine .of_request rfl rfl ?_ (launched_of_request rfl rfl)
    rw [current?_of_flight hflight]
    rfl
  | cancel =>
    refine .of_request rfl rfl rfl ?_
    rw [launched, marks, List.filterMap_map]
    exact List.filterMap_eq_nil_iff.2 fun _ _ => rfl
  | skip => exact .of_request rfl rfl rfl (launched_of_request rfl rfl)
  | @stream line session message hflight hmessage hgoing =>
    have hcurrent := current?_of_flight hflight
    refine .stream hcurrent hmessage hgoing (streams_emit_stream ..) hcurrent
      (launched_nil rfl ?_)
    rintro _ ⟨⟩
    rw [endedBy?_of_message hflight hmessage, if_neg (Bool.eq_false_iff.1 hgoing)]
  | @finish line session message hflight hmessage hfinished _ =>
    refine .of_finish none hflight hmessage hfinished (streams_emit_stream ..) rfl ?_ hnone
    have hwritten : written c ((c.emit (.stream message)).release session) =
        if c.isWritable then session.queued else [] := written_append rfl
    rw [hwritten]
    split
    · exact List.drop_length
    · exact List.drop_nil
  | @relaunch line session message query hflight hmessage hfinished _ hwriter =>
    refine .of_finish (some ⟨c.nextId, query⟩) hflight hmessage hfinished
      (streams_emit_stream ..) rfl ?_ ?_
    · have haccepted := release_accepted (c := c.emit (.stream message)) hwriter session
      have hwritten : written c (((c.emit (.stream message)).release session).launch query) =
          session.queued ++ [⟨c.nextId, query⟩] :=
        written_append ((congrArg (· ++ [_]) haccepted).trans (List.append_assoc ..))
      rw [hwritten, List.drop_left]
      rfl
    · rintro _ ⟨⟩
      exact ⟨rfl, rfl⟩
  | @abandon line session message query hflight hmessage hfinished _ hwriter =>
    refine .of_finish none hflight hmessage hfinished (streams_emit_stream ..) rfl ?_ hnone
    have hwritten : written c ((c.emit (.stream message)).release session).spend =
        if c.isWritable then session.queued else [] := written_append rfl
    rw [hwritten, if_neg (Bool.eq_false_iff.1 hwriter)]
    exact List.drop_nil
  | @aside line _ hmessage haside =>
    have hline : ∀ id, c.current? = some id → StreamMessage.ofLine? id line = none := by
      intro id hid
      obtain ⟨session, hflight, rfl⟩ := current?_eq_some_iff.1 hid
      exact hmessage session hflight
    have hended := endedBy?_of_none hmessage
    have hquiet : ∀ d : Channel, d.streams = c.streams → d.current? = c.current? →
        d.accepted = c.accepted → Flow c (.receive line) d := by
      intro d hstreams hcurrent haccepted
      refine .quiet (fun hend => by cases hend) ?_ hstreams hcurrent (launched_nil haccepted ?_)
      · rintro _ id ⟨⟩
        exact hline id
      · rintro _ ⟨⟩
        exact hended
    cases haside with
    | notice => exact hquiet _ (by simp [streams, emit]) rfl rfl
    | _ => exact hquiet _ rfl rfl rfl
  | writer hop =>
    refine .quiet ?_ ?_ rfl rfl (launched_nil rfl ?_)
    · cases op <;> simp [Op.isWriterChange, Op.isEnd] at hop ⊢
    · rintro _ _ rfl
      cases hop
    · rintro _ rfl
      cases hop
  | ended hop hend =>
    refine .ended hop hend.streams (current?_of_idle hend.fullBuffer)
      (launched_nil hend.accepted ?_) hend.dead
    rintro _ rfl
    cases hop
  | again hop hdead =>
    have hidle := current?_of_idle (hc.idle hdead)
    refine .quiet (fun _ => hidle) ?_ rfl rfl (launched_nil rfl ?_)
    · rintro _ _ rfl
      cases hop
    · rintro _ rfl
      cases hop

/-- Only the end of a channel makes it dead. -/
theorem Move.isAlive (h : Move c op c') :
    c'.isAlive = c.isAlive ∨ c'.isAlive = false ∧ c'.fullBuffer = none := by
  have hregister : ∀ (d : Channel) waited id, (d.register waited id).isAlive = d.isAlive := by
    intro d waited id
    cases waited <;> rfl
  cases h with
  | write => exact .inl (hregister _ _ _)
  | hold => exact .inl (hregister _ _ _)
  | aside _ haside => cases haside <;> exact .inl rfl
  | ended _ hend => exact .inr ⟨hend.dead, hend.fullBuffer⟩
  | _ => exact .inl rfl

theorem Move.proper (h : Move c op c') (hc : c.Proper) : c'.Proper := by
  refine ⟨h.fits hc.fits, fun hdead' => ?_⟩
  rcases h.isAlive with hkept | ⟨-, hidle⟩
  · have hdead := hkept ▸ hdead'
    have hidle := current?_of_idle (hc.idle hdead)
    cases move_flow hc h with
    | quiet _ _ _ hcurrent => exact current?_eq_none_iff.1 (hcurrent.trans hidle)
    | launch _ halive => simp [hdead] at halive
    | stream hflight => simp [hidle] at hflight
    | finish hflight => simp [hidle] at hflight
    | ended _ _ hcurrent => exact current?_eq_none_iff.1 hcurrent
  · exact hidle

end Moves

theorem step_proper {c : Channel} (hc : c.Proper) (op : Op) : (c.step op).Proper :=
  (step_move hc.fits op).proper hc

theorem step_flow {c : Channel} (hc : c.Proper) (op : Op) : Flow c op (c.step op) :=
  move_flow hc (step_move hc.fits op)

/-- After its end a channel writes no full-buffer queries. -/
theorem sequences_of_dead {c : Channel} (hc : c.Proper) (hdead : c.isAlive = false)
    (ops : List Op) : sequences c ops = [] := by
  induction ops generalizing c with
  | nil => rfl
  | cons op rest ih =>
    have hidle := current?_of_idle (hc.idle hdead)
    have hdead' : (c.step op).isAlive = false := by
      rcases (step_move hc.fits op).isAlive with hkept | ⟨hended, -⟩
      · exact hkept.trans hdead
      · exact hended
    have hlaunched : launched c op (c.step op) = [] := by
      cases step_flow hc op with
      | quiet _ _ _ _ hlaunched => exact hlaunched
      | launch _ halive => simp [hdead] at halive
      | stream hflight => simp [hidle] at hflight
      | finish hflight => simp [hidle] at hflight
      | ended _ _ _ hlaunched => exact hlaunched
    rw [sequences, hlaunched, ih (step_proper hc op) hdead']
    rfl

-- ---------------------------------------------------------------------------
-- The pieces of the stream
-- ---------------------------------------------------------------------------

/-- The sequences that the operations bring: what remains of the one in flight, and
those of the queries yet to be written. -/
def upcoming (c : Channel) (ops : List Op) : List (List StreamMessage) :=
  match c.current? with
  | some id => sequenceOf id ops :: sequences c ops
  | none => sequences c ops

theorem upcoming_of_flight {c : Channel} {id : QueryId} (h : c.current? = some id)
    (ops : List Op) : c.upcoming ops = sequenceOf id ops :: sequences c ops := by
  rw [upcoming, h]

theorem upcoming_of_idle {c : Channel} (h : c.current? = none) (ops : List Op) :
    c.upcoming ops = sequences c ops := by
  rw [upcoming, h]

theorem cutAfter_ne_nil {α : Type} (p : α → Bool) (xs : List α) : cutAfter p xs ≠ [] := by
  induction xs with
  | nil => exact List.cons_ne_nil _ _
  | cons x xs ih =>
    rw [cutAfter]
    split
    · exact List.cons_ne_nil _ _
    · simpa using ih

/-- The pieces of the messages that operations bring are the sequences they bring. -/
def Attributed (c : Channel) (ops : List Op) : Prop :=
  ∃ messages, (c.run ops).streams = c.streams ++ messages ∧
    ∀ k, (cutAfter StreamMessage.isFinished messages).getD k [] = (c.upcoming ops).getD k []

section Pieces

variable {c c' : Channel} {op : Op} {rest : List Op} {message : StreamMessage}

theorem Attributed.skip (h : Attributed c' rest) (hstep : c.step op = c')
    (hstreams : c'.streams = c.streams) (hupcoming : c.upcoming (op :: rest) = c'.upcoming rest) :
    Attributed c (op :: rest) := by
  obtain ⟨messages, hrun, hpieces⟩ := h
  subst hstep
  refine ⟨messages, ?_, ?_⟩
  · rw [← hstreams]
    exact hrun
  · rw [hupcoming]
    exact hpieces

theorem Attributed.going (h : Attributed c' rest) (hstep : c.step op = c')
    (hstreams : c'.streams = c.streams ++ [message]) (hgoing : message.isFinished = false)
    {piece : List StreamMessage} {pieces : List (List StreamMessage)}
    (hupcoming' : c'.upcoming rest = piece :: pieces)
    (hupcoming : c.upcoming (op :: rest) = (message :: piece) :: pieces) :
    Attributed c (op :: rest) := by
  obtain ⟨messages, hrun, hpieces⟩ := h
  subst hstep
  refine ⟨message :: messages, ?_, fun k => ?_⟩
  · show ((c.step op).run rest).streams = _
    rw [hrun, hstreams, List.append_assoc, List.singleton_append]
  · rw [hupcoming'] at hpieces
    rw [hupcoming, cutAfter, if_neg (Bool.eq_false_iff.1 hgoing)]
    obtain ⟨first, others, hcut⟩ := List.exists_cons_of_ne_nil
      (cutAfter_ne_nil StreamMessage.isFinished messages)
    rw [hcut] at hpieces ⊢
    cases k with
    | zero => exact congrArg (message :: ·) (hpieces 0)
    | succ k => exact hpieces (k + 1)

theorem Attributed.finished (h : Attributed c' rest) (hstep : c.step op = c')
    (hstreams : c'.streams = c.streams ++ [message]) (hfinished : message.isFinished = true)
    (hupcoming : c.upcoming (op :: rest) = [message] :: c'.upcoming rest) :
    Attributed c (op :: rest) := by
  obtain ⟨messages, hrun, hpieces⟩ := h
  subst hstep
  refine ⟨message :: messages, ?_, fun k => ?_⟩
  · show ((c.step op).run rest).streams = _
    rw [hrun, hstreams, List.append_assoc, List.singleton_append]
  · rw [hupcoming, cutAfter, if_pos hfinished]
    cases k with
    | zero => rfl
    | succ k => exact hpieces k

end Pieces

section Steps

variable {c c' : Channel} {op : Op} {rest : List Op}

theorem sequenceOf_quiet {id : QueryId} (hend : op.isEnd = false)
    (hline : ∀ line, op = .receive line → StreamMessage.ofLine? id line = none) :
    sequenceOf id (op :: rest) = sequenceOf id rest := by
  cases op with
  | receive line => rw [sequenceOf, hline line rfl]
  | markExited => cases hend
  | dispose => cases hend
  | _ => rfl

theorem sequenceOf_message {id : QueryId} {line : String} {message : StreamMessage}
    (h : StreamMessage.ofLine? id line = some message) :
    sequenceOf id (.receive line :: rest) =
      if message.isFinished then [message] else message :: sequenceOf id rest := by
  rw [sequenceOf, h]

theorem sequenceOf_end (id : QueryId) (hend : op.isEnd = true) :
    sequenceOf id (op :: rest) = [] := by
  cases op with
  | markExited => rfl
  | dispose => rfl
  | _ => cases hend

/-- What the rest of a run brings goes on from what its first operation brings. -/
theorem Flow.attributed (hflow : Flow c op c') (hc' : c'.Proper) (hstep : c.step op = c')
    (ih : Attributed c' rest) : Attributed c (op :: rest) := by
  have hsequences : sequences c (op :: rest) =
      (launched c op c').map (fun e => sequenceOf e.id rest) ++ sequences c' rest := by
    rw [sequences, hstep]
  cases hflow with
  | quiet hend hline hstreams hcurrent hlaunched =>
    refine ih.skip hstep hstreams ?_
    rw [hlaunched, List.map_nil, List.nil_append] at hsequences
    cases hcur : c.current? with
    | none => rw [upcoming_of_idle hcur, upcoming_of_idle (hcurrent.trans hcur), hsequences]
    | some id =>
      have hgoing : op.isEnd = false := by
        rw [Bool.eq_false_iff]
        intro h
        rw [hend h] at hcur
        cases hcur
      have hquiet : sequenceOf id (op :: rest) = sequenceOf id rest :=
        sequenceOf_quiet hgoing fun line hop => hline line id hop hcur
      rw [upcoming_of_flight hcur, upcoming_of_flight (hcurrent.trans hcur), hsequences, hquiet]
  | launch _ _ hidle hstreams hcurrent hlaunched =>
    refine ih.skip hstep hstreams ?_
    rw [upcoming_of_idle hidle, upcoming_of_flight hcurrent, hsequences, hlaunched]
    rfl
  | stream hflight hmessage hgoing hstreams hcurrent hlaunched =>
    refine ih.going hstep hstreams hgoing (upcoming_of_flight hcurrent rest) ?_
    rw [upcoming_of_flight hflight, hsequences, hlaunched, sequenceOf_message hmessage,
      if_neg (Bool.eq_false_iff.1 hgoing)]
    rfl
  | @finish _ _ _ _ next hflight hmessage hfinished hstreams hcurrent hlaunched =>
    refine ih.finished hstep hstreams hfinished ?_
    rw [upcoming_of_flight hflight, hsequences, hlaunched, sequenceOf_message hmessage,
      if_pos hfinished]
    cases next with
    | none => rw [upcoming_of_idle hcurrent]; rfl
    | some e => rw [upcoming_of_flight hcurrent]; rfl
  | ended hend hstreams hcurrent hlaunched hdead =>
    have hnone := sequences_of_dead hc' hdead rest
    rw [hlaunched, List.map_nil, List.nil_append] at hsequences
    cases hcur : c.current? with
    | none =>
      refine ih.skip hstep hstreams ?_
      rw [upcoming_of_idle hcur, upcoming_of_idle hcurrent, hsequences]
    | some id =>
      -- the sequence in flight is cut short, and no other one follows it
      obtain ⟨messages, hrun, hpieces⟩ := ih
      refine ⟨messages, ?_, fun k => ?_⟩
      · rw [← hstreams, ← hrun, ← hstep]
        rfl
      · rw [hpieces, upcoming_of_idle hcurrent, upcoming_of_flight hcur, hsequences, hnone,
          sequenceOf_end id hend]
        cases k <;> rfl

end Steps

theorem run_attributed {c : Channel} (hc : c.Proper) (ops : List Op) : Attributed c ops := by
  induction ops generalizing c with
  | nil =>
    refine ⟨[], (List.append_nil _).symm, fun k => ?_⟩
    cases hcur : c.current? with
    | none =>
      rw [upcoming_of_idle hcur]
      cases k <;> rfl
    | some id =>
      rw [upcoming_of_flight hcur]
      cases k <;> rfl
  | cons op rest ih =>
    have hc' := step_proper hc op
    exact (step_flow hc op).attributed hc' rfl (ih hc')

-- ---------------------------------------------------------------------------
-- Lines under other ids
-- ---------------------------------------------------------------------------

/-- A line under another id than that of the query in flight is no part of its
sequence. -/
theorem receive_foreign {c : Channel} (hc : c.Proper) {id : QueryId} {line : String}
    (hflight : c.current? = some id)
    (hforeign : ∀ incoming, Incoming.parse? line = some incoming →
      QueryId.stem incoming.rawId ≠ id.text) :
    (c.receive line).streams = c.streams ∧ (c.receive line).current? = some id := by
  have hnone : StreamMessage.ofLine? id line = none := by
    cases hparse : Incoming.parse? line with
    | none => rw [StreamMessage.ofLine?, hparse]
    | some incoming => rw [streamOfLine?_eq hparse, if_neg (hforeign incoming hparse)]
  have hflow : Flow c (.receive line) (c.receive line) := step_flow hc (.receive line)
  cases hflow with
  | quiet _ _ hstreams hcurrent => exact ⟨hstreams, hcurrent.trans hflight⟩
  | launch hop => cases hop
  | stream hflight' hmessage =>
    rw [hflight, Option.some.injEq] at hflight'
    rw [← hflight', hnone] at hmessage
    cases hmessage
  | finish hflight' hmessage =>
    rw [hflight, Option.some.injEq] at hflight'
    rw [← hflight', hnone] at hmessage
    cases hmessage
  | ended hend => cases hend

/-- A full-buffer query is written under a new id. -/
theorem Flow.launched_sublist {c c' : Channel} {op : Op} (h : Flow c op c') :
    ((launched c op c').map Envelope.id).Sublist (allocated c c') := by
  cases h with
  | quiet _ _ _ _ hlaunched => simp [hlaunched]
  | launch _ _ _ _ _ hlaunched hid hspent =>
    rw [hlaunched, allocated_of_spent hspent, List.map_singleton, hid]
  | stream _ _ _ _ _ hlaunched => simp [hlaunched]
  | @finish _ _ _ _ next _ _ _ _ _ hlaunched hid =>
    rw [hlaunched]
    cases next with
    | none => simp
    | some e =>
      obtain ⟨hid, hspent⟩ := hid e rfl
      rw [allocated_of_spent hspent, Option.toList_some, List.map_singleton, hid]
  | ended _ _ _ hlaunched => simp [hlaunched]

theorem launches_sublist {c : Channel} (hc : c.Proper) (ops : List Op) :
    ((launches c ops).map Envelope.id).Sublist (allocations c ops) := by
  induction ops generalizing c with
  | nil => exact .slnil
  | cons op rest ih =>
    have hrest := ih (step_proper hc op)
    have hstep := (step_flow hc op).launched_sublist
    unfold launches allocations at hrest ⊢
    rw [along, along, List.map_append]
    exact hstep.append hrest

theorem new_proper (role : Role) : Proper { role } := ⟨nofun, fun _ => rfl⟩

theorem run_proper (role : Role) (ops : List Op) : (run { role } ops).Proper :=
  run_induction (P := fun _ c => c.Proper) (new_proper role) (fun _ op h => step_proper h op) ops

-- ---------------------------------------------------------------------------
-- All runs
-- ---------------------------------------------------------------------------

/-- Cut after each message that ends a sequence, the stream falls into the sequences of
the full-buffer queries, in the order in which these were written. A line under
another id than that of the query in flight, up to its first dot, neither ends the
sequence nor shows in the stream, and the ids of the queries written before are such
ids. -/
theorem stream_attribution (role : Role) (ops : List Op) :
    (∀ k, (cutAfter StreamMessage.isFinished (run { role } ops).streams).getD k [] =
      (sequences { role } ops).getD k []) ∧
    (∀ id line, (run { role } ops).current? = some id →
      (∀ incoming, Incoming.parse? line = some incoming →
        QueryId.stem incoming.rawId ≠ id.text) →
      ((run { role } ops).receive line).streams = (run { role } ops).streams ∧
      ((run { role } ops).receive line).current? = some id) ∧
    ((allocations { role } ops).length < QueryId.limit →
      ((launches { role } ops).map Envelope.id).Nodup) := by
  refine ⟨?_, ?_, ?_⟩
  · obtain ⟨messages, hrun, hpieces⟩ := run_attributed (new_proper role) ops
    have hmessages : (run { role } ops).streams = messages := hrun
    rw [hmessages]
    exact hpieces
  · exact fun id line => receive_foreign (run_proper role ops)
  · intro hfew
    exact (allocations_nodup hfew).sublist (launches_sublist (new_proper role) ops)

/-- The second of two sequences is in flight. -/
def secondSequence : List Op :=
  [.startFullBuffer (.fullBuffer .full "let x = 1" none),
   .startFullBuffer (.fullBuffer .full "let x = 2" none),
   .receive (finishedLine "1.2")]

/-- Neither the id of the first sequence nor a spelling of the second one's with a
leading zero belongs to the second one. -/
theorem secondSequence_foreign :
    (∀ rawId ∈ ["1.3", "02.3"],
      ((run { role := .strict } secondSequence).receive (finishedLine rawId)).streams =
        (run { role := .strict } secondSequence).streams ∧
      ((run { role := .strict } secondSequence).receive (finishedLine rawId)).current? =
        some ⟨2⟩) ∧
    ((launches { role := .strict } secondSequence).map Envelope.id).Nodup := by
  obtain ⟨-, hforeign, hdistinct⟩ := stream_attribution .strict secondSequence
  have hids : ∀ rawId ∈ ["1.3", "02.3"],
      (Incoming.parse? (finishedLine rawId)).map (fun incoming => QueryId.stem incoming.rawId) ≠
        some (QueryId.text ⟨2⟩) := by
    decide +kernel
  refine ⟨?_, hdistinct ?_⟩
  · intro rawId hraw
    refine hforeign ⟨2⟩ _ (by decide +kernel) ?_
    intro incoming hparse hstem
    apply hids rawId hraw
    rw [hparse, Option.map_some, hstem]
  · exact Nat.lt_of_le_of_lt (length_allocations_le _ _) (by decide)

end VerifierClient.Channel
