import VerifierClient.Channel.Basic
import VerifierClient.Proofs.Wire.QueryId

/-!
# What an operation does to a channel

Every operation does one of a few things: it writes an envelope, holds it back,
starts or ends a sequence, settles a query, or leaves everything as it was. This
module says once which of them happens and under which conditions, so that an
invariant of channels is shown for these moves and the operations need not be
opened again.

* `Channel.Move` — the moves, each with its conditions and the state it leads to;
* `Channel.step_move` — every operation makes one of them;
* `Channel.submit_eq_ok_iff` — when a query is accepted, and under which id.
-/

namespace VerifierClient

-- ---------------------------------------------------------------------------
-- Lines
-- ---------------------------------------------------------------------------

/-- The id that a message carries; the handshake carries none. -/
def Incoming.rawId : Incoming → String
  | .protocolInfo _ _ => ""
  | .response rawId _ _ => rawId
  | .message rawId _ _ => rawId

/-- The stream message of a line whose id, up to its first dot, is that of the
query `id`. -/
def StreamMessage.ofLine? (id : QueryId) (line : String) : Option StreamMessage :=
  match Incoming.parse? line with
  | some incoming => if QueryId.stem incoming.rawId = id.text then ofIncoming? incoming else none
  | none => none

/-- The response of a line whose id is exactly that of the query `id`. -/
def Response.ofLine? (id : QueryId) (line : String) : Option Response :=
  match Incoming.parse? line with
  | some (.response rawId status payload) =>
    if rawId = id.text then some ⟨status, payload⟩ else none
  | _ => none

theorem QueryId.text_injective {id id' : QueryId} (h : id.text = id'.text) : id = id' := by
  have hnumber := congrArg (fun raw => Text.digitsValue raw.toList) h
  simp only [text, Text.decimalText, String.toList_ofList, Text.digitsValue_decimal] at hnumber
  cases id
  cases id'
  exact congrArg QueryId.mk hnumber

theorem Response.ofLine?_eq_some_iff {id : QueryId} {line : String} {response : Response} :
    ofLine? id line = some response ↔
      Incoming.parse? line = some (.response id.text response.status response.payload) := by
  unfold ofLine?
  split
  next rawId status payload hparse =>
    rw [hparse]
    simp only [Option.some.injEq, Incoming.response.injEq]
    constructor
    · intro h
      split at h
      next hraw =>
        cases h
        exact ⟨hraw, rfl, rfl⟩
      next => cases h
    · rintro ⟨rfl, rfl, rfl⟩
      rw [if_pos rfl]
  next hother =>
    refine ⟨nofun, fun h => ?_⟩
    exact absurd h (hother _ _ _)

/-- A line is the response to one query at most. -/
theorem Response.ofLine?_unique {id id' : QueryId} {line : String} {r r' : Response}
    (h : ofLine? id line = some r) (h' : ofLine? id' line = some r') : id = id' ∧ r = r' := by
  rw [ofLine?_eq_some_iff] at h h'
  rw [h, Option.some.injEq, Incoming.response.injEq] at h'
  refine ⟨QueryId.text_injective h'.1, ?_⟩
  cases r
  cases r'
  simp_all

namespace Channel

-- ---------------------------------------------------------------------------
-- States that moves lead to
-- ---------------------------------------------------------------------------

def isWritable (c : Channel) : Bool :=
  match c.writer with
  | .closed _ => false
  | _ => true

/-- The id of the full-buffer query in flight. -/
def current? (c : Channel) : Option QueryId := c.fullBuffer.map BufferSession.current

/-- The ordinary queries held back. -/
def heldBack (c : Channel) : List Envelope :=
  match c.fullBuffer with
  | some session => session.queued
  | none => []

/-- The next id is used up. -/
def spend (c : Channel) : Channel := { c with lastId := c.nextId.number }

def accept (c : Channel) (envelopes : List Envelope) : Channel :=
  { c with accepted := c.accepted ++ envelopes }

/-- An ordinary query joins those held back. -/
def hold (c : Channel) (session : BufferSession) (e : Envelope) : Channel :=
  { c with fullBuffer := some { session with queued := session.queued ++ [e] } }

/-- A full-buffer query goes out and is in flight. -/
def launch (c : Channel) (query : Query) : Channel :=
  { c.spend.accept [⟨c.nextId, query⟩] with
    fullBuffer := some { current := c.nextId }
    idle := false }

/-- A sequence is over, and what it held back goes out if the writer takes it. -/
def release (c : Channel) (session : BufferSession) : Channel :=
  { c.accept (if c.isWritable then session.queued else []) with
    fullBuffer := none
    idle := true }

/-- The messages of sequences among the events. -/
def streams (c : Channel) : List StreamMessage :=
  c.events.filterMap fun
    | .stream message => some message
    | _ => none

@[simp] theorem register_fullBuffer (c : Channel) (waited : Bool) (id : QueryId) :
    (c.register waited id).fullBuffer = c.fullBuffer := by
  cases waited <;> rfl

@[simp] theorem register_accepted (c : Channel) (waited : Bool) (id : QueryId) :
    (c.register waited id).accepted = c.accepted := by
  cases waited <;> rfl

@[simp] theorem register_heldBack (c : Channel) (waited : Bool) (id : QueryId) :
    (c.register waited id).heldBack = c.heldBack := by
  cases waited <;> rfl

@[simp] theorem register_current? (c : Channel) (waited : Bool) (id : QueryId) :
    (c.register waited id).current? = c.current? := by
  cases waited <;> rfl

@[simp] theorem register_streams (c : Channel) (waited : Bool) (id : QueryId) :
    (c.register waited id).streams = c.streams := by
  cases waited <;> rfl

theorem streams_emit_stream (c : Channel) (message : StreamMessage) :
    (c.emit (.stream message)).streams = c.streams ++ [message] := by
  simp [streams, emit]

theorem release_accepted {c : Channel} (h : c.isWritable = true) (session : BufferSession) :
    (c.release session).accepted = c.accepted ++ session.queued := by
  rw [release, if_pos h]
  rfl

theorem heldBack_of_flight {c : Channel} {session : BufferSession}
    (hflight : c.fullBuffer = some session) : c.heldBack = session.queued := by
  rw [heldBack, hflight]

theorem heldBack_of_idle {c : Channel} (hidle : c.fullBuffer = none) : c.heldBack = [] := by
  rw [heldBack, hidle]

theorem current?_of_flight {c : Channel} {session : BufferSession}
    (hflight : c.fullBuffer = some session) : c.current? = some session.current := by
  rw [current?, hflight]
  rfl

theorem current?_of_idle {c : Channel} (hidle : c.fullBuffer = none) : c.current? = none := by
  rw [current?, hidle]
  rfl

/-- An operation that submits an ordinary query. -/
def Op.submit (waited : Bool) (query : Query) : Op :=
  if waited then .send query else .sendDetached query

/-- Operations that ask something of the verifier. -/
def Op.isRequest : Op → Bool
  | .send _ | .sendDetached _ | .startFullBuffer _ | .cancel _ => true
  | _ => false

/-- Operations that end the channel. -/
def Op.isEnd : Op → Bool
  | .markExited _ | .dispose => true
  | _ => false

/-- Operations on the writer. -/
def Op.isWriterChange : Op → Bool
  | .breakWriter | .closeWriter => true
  | _ => false

-- ---------------------------------------------------------------------------
-- Moves
-- ---------------------------------------------------------------------------

/-- What a line does that carries no message of the sequence in flight. -/
inductive Aside (c : Channel) (line : String) : Channel → Prop
  /-- the response to a query, which is no longer waited for -/
  | resolve {id : QueryId} {response : Response} (hfit : id.number < QueryId.limit)
      (hcurrent : c.current? ≠ some id) (hanswer : Response.ofLine? id line = some response)
      (hpending : id ∈ c.pending) :
      Aside c line { c with
        pending := c.pending.filter (· ≠ id)
        resolved := c.resolved ++ [(id, .ok response)] }
  /-- a response that nobody waits for -/
  | forget {id : QueryId} {response : Response} (hfit : id.number < QueryId.limit)
      (hcurrent : c.current? ≠ some id) (hanswer : Response.ofLine? id line = some response)
      (hpending : id ∉ c.pending) :
      Aside c line { c with detached := c.detached.filter (· ≠ id) }
  /-- no response to an ordinary query -/
  | nothing (hanswer : ∀ id response, id.number < QueryId.limit →
      Response.ofLine? id line = some response → c.current? = some id) : Aside c line c
  | handshake {capabilities : Capabilities}
      (hanswer : ∀ id, Response.ofLine? id line = none) :
      Aside c line { c with capabilities := some capabilities }
  | notice {n : Notice} (hanswer : ∀ id, Response.ofLine? id line = none) :
      Aside c line (c.emit (.notice n))

/-- The end of a channel: all queries are resolved with an error. -/
structure Ended (c c' : Channel) : Prop where
  fullBuffer : c'.fullBuffer = none
  pending : c'.pending = []
  detached : c'.detached = []
  idle : c'.idle = true
  dead : c'.isAlive = false
  lastId : c'.lastId = c.lastId
  accepted : c'.accepted = c.accepted
  streams : c'.streams = c.streams
  resolved : ∃ error, c'.resolved = c.resolved ++ c.pending.map fun id => (id, .error error)
  writer : c.isWritable = false → c'.isWritable = false

/-- The moves of a channel. -/
inductive Move (c : Channel) : Op → Channel → Prop
  /-- a channel that has ended takes no requests -/
  | refuse {op : Op} (hop : op.isRequest = true) (hdead : c.isAlive = false) : Move c op c
  /-- what the writer does not take is lost, and with it an id -/
  | lose {op : Op} (hop : op.isRequest = true) (halive : c.isAlive = true)
      (hwriter : c.isWritable = false) : Move c op c.spend
  /-- an ordinary query goes out -/
  | write {waited : Bool} {query : Query} (halive : c.isAlive = true)
      (hidle : c.fullBuffer = none) (hwriter : c.isWritable = true) :
      Move c (.submit waited query)
        ((c.spend.accept [⟨c.nextId, query⟩]).register waited c.nextId)
  /-- an ordinary query is held back -/
  | hold {waited : Bool} {query : Query} {session : BufferSession} (halive : c.isAlive = true)
      (hflight : c.fullBuffer = some session) :
      Move c (.submit waited query)
        ((c.spend.hold session ⟨c.nextId, query⟩).register waited c.nextId)
  /-- a full-buffer query goes out -/
  | launch {query : Query} (halive : c.isAlive = true) (hidle : c.fullBuffer = none)
      (hwriter : c.isWritable = true) : Move c (.startFullBuffer query) (c.launch query)
  /-- a full-buffer query waits for the end of the one in flight -/
  | replace {query : Query} {session : BufferSession} (halive : c.isAlive = true)
      (hflight : c.fullBuffer = some session) :
      Move c (.startFullBuffer query)
        { c with fullBuffer := some { session with replacement := some query } }
  /-- a cancel goes out -/
  | cancel {position : Position} {session : BufferSession} (halive : c.isAlive = true)
      (hflight : c.fullBuffer = some session) (hwriter : c.isWritable = true) :
      Move c (.cancel position)
        ((c.spend.accept [⟨c.nextId, .cancel position⟩]).register false c.nextId)
  /-- there is nothing to cancel -/
  | skip {position : Position} (hidle : c.fullBuffer = none) : Move c (.cancel position) c
  /-- a message of the sequence in flight -/
  | stream {line : String} {session : BufferSession} {message : StreamMessage}
      (hflight : c.fullBuffer = some session)
      (hmessage : StreamMessage.ofLine? session.current line = some message)
      (hgoing : message.isFinished = false) :
      Move c (.receive line) (c.emit (.stream message))
  /-- the message that ends the sequence in flight, with none to follow it -/
  | finish {line : String} {session : BufferSession} {message : StreamMessage}
      (hflight : c.fullBuffer = some session)
      (hmessage : StreamMessage.ofLine? session.current line = some message)
      (hfinished : message.isFinished = true) (hlast : session.replacement = none) :
      Move c (.receive line) ((c.emit (.stream message)).release session)
  /-- the message that ends the sequence in flight, after which the next one starts -/
  | relaunch {line : String} {session : BufferSession} {message : StreamMessage} {query : Query}
      (hflight : c.fullBuffer = some session)
      (hmessage : StreamMessage.ofLine? session.current line = some message)
      (hfinished : message.isFinished = true) (hnext : session.replacement = some query)
      (hwriter : c.isWritable = true) :
      Move c (.receive line) (((c.emit (.stream message)).release session).launch query)
  /-- the same, but the writer does not take the next query -/
  | abandon {line : String} {session : BufferSession} {message : StreamMessage} {query : Query}
      (hflight : c.fullBuffer = some session)
      (hmessage : StreamMessage.ofLine? session.current line = some message)
      (hfinished : message.isFinished = true) (hnext : session.replacement = some query)
      (hwriter : c.isWritable = false) :
      Move c (.receive line) ((c.emit (.stream message)).release session).spend
  | aside {line : String} {c' : Channel}
      (hmessage : ∀ session, c.fullBuffer = some session →
        StreamMessage.ofLine? session.current line = none)
      (haside : Aside c line c') : Move c (.receive line) c'
  | writer {op : Op} {writer : WriterState} (hop : op.isWriterChange = true)
      (hclosed : c.isWritable = false → ({ c with writer } : Channel).isWritable = false) :
      Move c op { c with writer }
  | ended {op : Op} {c' : Channel} (hop : op.isEnd = true) (hend : Ended c c') : Move c op c'
  /-- it has ended before -/
  | again {op : Op} (hop : op.isEnd = true) (hdead : c.isAlive = false) : Move c op c

-- ---------------------------------------------------------------------------
-- Requests
-- ---------------------------------------------------------------------------

theorem write_of_writable {c : Channel} (h : c.isWritable = true) (e : Envelope) :
    c.write e = (c.accept [e], true) := by
  cases hwriter : c.writer with
  | opened => simp [write, accept, hwriter]
  | failing => simp [write, accept, hwriter]
  | closed => simp [isWritable, hwriter] at h

theorem write_of_closed {c : Channel} (h : c.isWritable = false) (e : Envelope) :
    c.write e = (c, false) := by
  cases hwriter : c.writer with
  | opened => simp [isWritable, hwriter] at h
  | failing => simp [isWritable, hwriter] at h
  | closed => rw [write, hwriter]

theorem route_of_flight {c : Channel} {session : BufferSession}
    (h : c.fullBuffer = some session) (e : Envelope) : c.route e = (c.hold session e, true) := by
  rw [route, h]
  rfl

theorem route_of_idle {c : Channel} (h : c.fullBuffer = none) (e : Envelope) :
    c.route e = c.write e := by
  rw [route, h]

theorem submit_of_dead {c : Channel} (hdead : c.isAlive = false) (waited : Bool)
    (query : Query) : c.submit waited query = (c, .error c.closedError) := by
  rw [submit, if_neg (Bool.eq_false_iff.1 hdead)]

theorem submit_of_routed {c c' : Channel} {waited : Bool} {query : Query}
    (halive : c.isAlive = true) (hroute : c.spend.route ⟨c.nextId, query⟩ = (c', true)) :
    c.submit waited query = (c'.register waited c.nextId, .ok c.nextId) := by
  unfold spend at hroute
  simp only [submit, if_pos halive, allocate, hroute]

theorem submit_of_flight {c : Channel} {session : BufferSession} (halive : c.isAlive = true)
    (hflight : c.fullBuffer = some session) (waited : Bool) (query : Query) :
    c.submit waited query =
      ((c.spend.hold session ⟨c.nextId, query⟩).register waited c.nextId, .ok c.nextId) :=
  submit_of_routed halive (route_of_flight (c := c.spend) hflight _)

theorem submit_of_idle {c : Channel} (halive : c.isAlive = true) (hidle : c.fullBuffer = none)
    (hwriter : c.isWritable = true) (waited : Bool) (query : Query) :
    c.submit waited query =
      ((c.spend.accept [⟨c.nextId, query⟩]).register waited c.nextId, .ok c.nextId) := by
  apply submit_of_routed halive
  rw [route_of_idle (c := c.spend) hidle, write_of_writable (c := c.spend) hwriter]

theorem submit_of_closed {c : Channel} (halive : c.isAlive = true) (hidle : c.fullBuffer = none)
    (hwriter : c.isWritable = false) (waited : Bool) (query : Query) :
    c.submit waited query = (c.spend, .error (.exited c.role)) := by
  have hroute : c.spend.route ⟨c.nextId, query⟩ = (c.spend, false) := by
    rw [route_of_idle (c := c.spend) hidle, write_of_closed (c := c.spend) hwriter]
  unfold spend at hroute
  simp only [submit, if_pos halive, allocate, hroute, spend]

/-- A query is accepted on a channel that is alive, unless it would have to go out
and the writer is closed. It gets the next id. -/
theorem submit_eq_ok_iff {c : Channel} {waited : Bool} {query : Query} {id : QueryId} :
    (c.submit waited query).2 = .ok id ↔
      c.isAlive = true ∧ (c.inFlight = true ∨ c.isWritable = true) ∧ id = c.nextId := by
  have hok : ∀ {a b : QueryId}, (Except.ok a : Except ChannelError QueryId) = .ok b ↔ b = a :=
    fun {a b} => ⟨fun h => (Except.ok.inj h).symm, fun h => h ▸ rfl⟩
  by_cases halive : c.isAlive = true
  · cases hflight : c.fullBuffer with
    | some session =>
      rw [submit_of_flight halive hflight, hok]
      simp [halive, inFlight, hflight]
    | none =>
      by_cases hwriter : c.isWritable = true
      · rw [submit_of_idle halive hflight hwriter, hok]
        simp [halive, hwriter]
      · have hclosed := Bool.eq_false_iff.2 hwriter
        rw [submit_of_closed halive hflight hclosed]
        simp [hclosed, inFlight, hflight]
  · rw [submit_of_dead (Bool.eq_false_iff.2 halive)]
    simp [halive]

theorem isRequest_submit (waited : Bool) (query : Query) :
    (Op.submit waited query).isRequest = true := by
  cases waited <;> rfl

theorem submit_move (c : Channel) (waited : Bool) (query : Query) :
    Move c (.submit waited query) (c.submit waited query).1 := by
  have hop := isRequest_submit waited query
  by_cases halive : c.isAlive = true
  · cases hflight : c.fullBuffer with
    | some session =>
      rw [submit_of_flight halive hflight]
      exact .hold halive hflight
    | none =>
      by_cases hwriter : c.isWritable = true
      · rw [submit_of_idle halive hflight hwriter]
        exact .write halive hflight hwriter
      · have hclosed := Bool.eq_false_iff.2 hwriter
        rw [submit_of_closed halive hflight hclosed]
        exact .lose hop halive hclosed
  · have hdead := Bool.eq_false_iff.2 halive
    rw [submit_of_dead hdead]
    exact .refuse hop hdead

theorem dispatchFullBuffer_of_writable {c : Channel} (h : c.isWritable = true) (query : Query) :
    c.dispatchFullBuffer query = (c.launch query, .ok ()) := by
  have hwrite := write_of_writable (c := c.spend) h ⟨c.nextId, query⟩
  unfold spend at hwrite
  simp only [dispatchFullBuffer, allocate, hwrite]
  rfl

theorem dispatchFullBuffer_of_closed {c : Channel} (h : c.isWritable = false) (query : Query) :
    c.dispatchFullBuffer query = (c.spend, .error (.exited c.role)) := by
  have hwrite := write_of_closed (c := c.spend) h ⟨c.nextId, query⟩
  unfold spend at hwrite
  simp only [dispatchFullBuffer, allocate, hwrite, spend]

theorem startFullBuffer_move (c : Channel) (query : Query) :
    Move c (.startFullBuffer query) (c.startFullBuffer query).1 := by
  unfold startFullBuffer
  by_cases halive : c.isAlive = true
  · rw [if_pos halive]
    cases hflight : c.fullBuffer with
    | some session => exact .replace halive hflight
    | none =>
      by_cases hwriter : c.isWritable = true
      · rw [dispatchFullBuffer_of_writable hwriter]
        exact .launch halive hflight hwriter
      · have hclosed := Bool.eq_false_iff.2 hwriter
        rw [dispatchFullBuffer_of_closed hclosed]
        exact .lose rfl halive hclosed
  · rw [if_neg halive]
    exact .refuse rfl (Bool.eq_false_iff.2 halive)

theorem cancel_move (c : Channel) (position : Position) :
    Move c (.cancel position) (c.cancel position).1 := by
  unfold cancel
  cases hflight : c.fullBuffer with
  | none =>
    rw [if_neg (by simp [inFlight, hflight])]
    exact .skip hflight
  | some session =>
    by_cases halive : c.isAlive = true
    · rw [if_pos (by simp [inFlight, hflight, halive])]
      by_cases hwriter : c.isWritable = true
      · have hwrite := write_of_writable (c := c.spend) hwriter ⟨c.nextId, .cancel position⟩
        unfold spend at hwrite
        simp only [allocate, hwrite]
        exact .cancel halive hflight hwriter
      · have hclosed := Bool.eq_false_iff.2 hwriter
        have hwrite := write_of_closed (c := c.spend) hclosed ⟨c.nextId, .cancel position⟩
        unfold spend at hwrite
        simp only [allocate, hwrite]
        exact .lose rfl halive hclosed
    · rw [if_neg (by simp [halive])]
      exact .refuse rfl (Bool.eq_false_iff.2 halive)

-- ---------------------------------------------------------------------------
-- The end of a sequence
-- ---------------------------------------------------------------------------

/-- The writer takes all of the envelopes or none. -/
theorem flush_eq (c : Channel) (envelopes : List Envelope) :
    c.flush envelopes = c.accept (if c.isWritable then envelopes else []) := by
  by_cases hwriter : c.isWritable = true
  · rw [if_pos hwriter]
    induction envelopes generalizing c with
    | nil => simp [flush, accept]
    | cons e rest ih =>
      rw [flush, write_of_writable hwriter]
      show (c.accept [e]).flush rest = _
      rw [ih (c.accept [e]) hwriter]
      simp [accept]
  · rw [if_neg hwriter]
    cases envelopes with
    | nil => simp [flush, accept]
    | cons e rest =>
      rw [flush, write_of_closed (Bool.eq_false_iff.2 hwriter)]
      simp [accept]

theorem finishFullBuffer_of_last {c : Channel} {session : BufferSession}
    (hflight : c.fullBuffer = some session) (hlast : session.replacement = none) :
    c.finishFullBuffer = c.release session := by
  simp only [finishFullBuffer, hflight, hlast, flush_eq]
  rfl

theorem finishFullBuffer_of_next {c : Channel} {session : BufferSession} {query : Query}
    (hflight : c.fullBuffer = some session) (hnext : session.replacement = some query) :
    c.finishFullBuffer =
      if c.isWritable then (c.release session).launch query else (c.release session).spend := by
  simp only [finishFullBuffer, hflight, hnext, flush_eq]
  by_cases hwriter : c.isWritable = true
  · rw [dispatchFullBuffer_of_writable, if_pos hwriter]
    · rfl
    · exact hwriter
  · rw [dispatchFullBuffer_of_closed, if_neg hwriter]
    · rfl
    · exact Bool.eq_false_iff.2 hwriter

-- ---------------------------------------------------------------------------
-- Lines
-- ---------------------------------------------------------------------------

/-- The id in flight is one that can be read back. -/
def Fits (c : Channel) : Prop := ∀ id, c.current? = some id → id.number < QueryId.limit

theorem current?_eq_some_iff {c : Channel} {id : QueryId} :
    c.current? = some id ↔ ∃ session, c.fullBuffer = some session ∧ session.current = id :=
  Option.map_eq_some_iff

theorem current?_eq_none_iff {c : Channel} : c.current? = none ↔ c.fullBuffer = none :=
  Option.map_eq_none_iff

theorem isStreaming_iff {c : Channel} (hfit : c.Fits) (rawId : String) :
    c.isStreaming rawId = true ↔
      ∃ session, c.fullBuffer = some session ∧ QueryId.stem rawId = session.current.text := by
  unfold isStreaming
  cases hflight : c.fullBuffer with
  | none => simp
  | some session =>
    have hlt : session.current.number < QueryId.limit :=
      hfit _ (current?_eq_some_iff.2 ⟨session, hflight, rfl⟩)
    have howner : QueryId.owner? rawId = some session.current ↔
        QueryId.stem rawId = session.current.text := by
      rw [QueryId.owner?_eq_some_iff]
      exact and_iff_right hlt
    simp only [Option.some.injEq, exists_eq_left']
    rw [← howner]
    cases QueryId.owner? rawId with
    | none => simp
    | some id =>
      rw [beq_iff_eq, Option.some.injEq]
      exact eq_comm

section Lines

variable {c : Channel} {line : String} {incoming : Incoming}

theorem streamOfLine?_eq (hparse : Incoming.parse? line = some incoming) (id : QueryId) :
    StreamMessage.ofLine? id line =
      if QueryId.stem incoming.rawId = id.text then StreamMessage.ofIncoming? incoming
      else none := by
  rw [StreamMessage.ofLine?, hparse]

/-- A response that counts as a part of the sequence is one to the query in flight. -/
theorem answer_in_stream (hparse : Incoming.parse? line = some incoming) {id id' : QueryId}
    (hstem : QueryId.stem incoming.rawId = id.text) {response : Response}
    (hanswer : Response.ofLine? id' line = some response) : id = id' := by
  rw [Response.ofLine?_eq_some_iff, hparse, Option.some.injEq] at hanswer
  rw [hanswer, Incoming.rawId, QueryId.stem_text] at hstem
  exact QueryId.text_injective hstem.symm

/-- A line with a message of a sequence is no response to another query. -/
theorem answer_of_stream {id id' : QueryId} {message : StreamMessage} {response : Response}
    (hmessage : StreamMessage.ofLine? id line = some message)
    (hanswer : Response.ofLine? id' line = some response) : id = id' := by
  cases hparse : Incoming.parse? line with
  | none =>
    rw [StreamMessage.ofLine?, hparse] at hmessage
    cases hmessage
  | some incoming =>
    rw [streamOfLine?_eq hparse] at hmessage
    split at hmessage
    next hstem => exact answer_in_stream hparse hstem hanswer
    next => cases hmessage

theorem receiveStream_move (hparse : Incoming.parse? line = some incoming)
    {session : BufferSession} (hflight : c.fullBuffer = some session)
    (hstem : QueryId.stem incoming.rawId = session.current.text) :
    Move c (.receive line) (c.receiveStream incoming) := by
  have hmessage := streamOfLine?_eq hparse session.current
  rw [if_pos hstem] at hmessage
  unfold receiveStream
  cases hof : StreamMessage.ofIncoming? incoming with
  | none =>
    rw [hof] at hmessage
    refine .aside (fun session' hsession => ?_) (.nothing fun id response _ hanswer => ?_)
    · rw [hflight, Option.some.injEq] at hsession
      rw [← hsession, hmessage]
    · rw [current?, hflight]
      exact congrArg some (answer_in_stream hparse hstem hanswer)
  | some message =>
    rw [hof] at hmessage
    by_cases hfinished : message.isFinished = true
    · simp only [if_pos hfinished]
      cases hnext : session.replacement with
      | none =>
        rw [finishFullBuffer_of_last (c := c.emit (.stream message)) hflight hnext]
        exact .finish hflight hmessage hfinished hnext
      | some query =>
        rw [finishFullBuffer_of_next (c := c.emit (.stream message)) hflight hnext]
        by_cases hwriter : c.isWritable = true
        · rw [if_pos (show (c.emit (.stream message)).isWritable = true from hwriter)]
          exact .relaunch hflight hmessage hfinished hnext hwriter
        · rw [if_neg (show ¬ (c.emit (.stream message)).isWritable = true from hwriter)]
          exact .abandon hflight hmessage hfinished hnext (Bool.eq_false_iff.2 hwriter)
    · simp only [if_neg hfinished]
      exact .stream hflight hmessage (Bool.eq_false_iff.2 hfinished)

theorem receiveResponse_aside {rawId : String} {status : ResponseStatus} {payload : Json}
    (hparse : Incoming.parse? line = some (.response rawId status payload))
    (hother : ∀ session, c.fullBuffer = some session →
      QueryId.stem rawId ≠ session.current.text) :
    Aside c line (c.receiveResponse rawId ⟨status, payload⟩) := by
  unfold receiveResponse
  cases hid : QueryId.parse? rawId with
  | none =>
    refine .nothing fun id response hfit hanswer => ?_
    rw [Response.ofLine?_eq_some_iff, hparse, Option.some.injEq, Incoming.response.injEq] at hanswer
    rw [QueryId.parse?_eq_some_iff.2 ⟨hfit, hanswer.1⟩] at hid
    cases hid
  | some id =>
    obtain ⟨hfit, hraw⟩ := QueryId.parse?_eq_some_iff.1 hid
    have hanswer : Response.ofLine? id line = some ⟨status, payload⟩ := by
      rw [Response.ofLine?_eq_some_iff, hparse, hraw]
    have hcurrent : c.current? ≠ some id := by
      intro hcurrent
      obtain ⟨session, hflight, rfl⟩ := current?_eq_some_iff.1 hcurrent
      refine hother session hflight ?_
      rw [hraw, QueryId.stem_text]
    by_cases hpending : id ∈ c.pending
    · simp only [List.contains_iff_mem, hpending, if_true]
      exact .resolve hfit hcurrent hanswer hpending
    · simp only [List.contains_iff_mem, hpending, if_false]
      exact .forget hfit hcurrent hanswer hpending

theorem receiveMessage_aside {rawId : String} {level : MessageLevel} {contents : Json}
    (hparse : Incoming.parse? line = some (.message rawId level contents)) :
    Aside c line (c.receiveMessage rawId (.message rawId level contents)) := by
  have hanswer : ∀ id, Response.ofLine? id line = none := by
    intro id
    rw [Response.ofLine?, hparse]
  have hnothing : Aside c line c :=
    .nothing fun id response _ h => by rw [hanswer] at h; cases h
  unfold receiveMessage
  split
  · split
    · exact .notice hanswer
    · exact hnothing
  · exact hnothing

theorem receive_move (hfit : c.Fits) : Move c (.receive line) (c.receive line) := by
  unfold receive
  cases hparse : Incoming.parse? line with
  | none =>
    refine .aside (fun session _ => ?_) (.nothing fun id response _ hanswer => ?_)
    · rw [StreamMessage.ofLine?, hparse]
    · rw [Response.ofLine?, hparse] at hanswer
      cases hanswer
  | some incoming =>
    -- a message whose id is not that of the sequence carries none of its messages
    have hunstreamed : c.isStreaming incoming.rawId ≠ true → ∀ session,
        c.fullBuffer = some session → QueryId.stem incoming.rawId ≠ session.current.text :=
      fun h session hflight hstem => h ((isStreaming_iff hfit _).2 ⟨session, hflight, hstem⟩)
    have hnone : c.isStreaming incoming.rawId ≠ true → ∀ session,
        c.fullBuffer = some session → StreamMessage.ofLine? session.current line = none := by
      intro h session hflight
      rw [streamOfLine?_eq hparse, if_neg (hunstreamed h session hflight)]
    have hstream : c.isStreaming incoming.rawId = true →
        Move c (.receive line) (c.receiveStream incoming) := by
      intro h
      obtain ⟨session, hflight, hstem⟩ := (isStreaming_iff hfit _).1 h
      exact receiveStream_move hparse hflight hstem
    cases incoming with
    | protocolInfo version features =>
      refine .aside (fun session _ => ?_) (.handshake fun id => ?_)
      · rw [streamOfLine?_eq hparse]
        split <;> rfl
      · rw [Response.ofLine?, hparse]
    | response rawId status payload =>
      simp only [receiveIncoming]
      split
      next h => exact hstream h
      next h => exact .aside (hnone h) (receiveResponse_aside hparse (hunstreamed h))
    | message rawId level contents =>
      simp only [receiveIncoming]
      split
      next h => exact hstream h
      next h => exact .aside (hnone h) (receiveMessage_aside hparse)

end Lines

-- ---------------------------------------------------------------------------
-- Ends
-- ---------------------------------------------------------------------------

theorem isWritable_closeWriter (c : Channel) : c.closeWriter.isWritable = false := by
  unfold closeWriter
  split
  next => rfl
  next => rfl
  next h => rw [isWritable, h]

theorem closeWriter_eq (c : Channel) : ∃ writer, c.closeWriter = { c with writer } := by
  unfold closeWriter
  split
  · exact ⟨_, rfl⟩
  · exact ⟨_, rfl⟩
  · exact ⟨c.writer, rfl⟩

theorem breakWriter_move (c : Channel) : Move c .breakWriter c.breakWriter := by
  unfold breakWriter
  split
  next h => exact .writer rfl fun hclosed => by simp [isWritable, h] at hclosed
  next => exact @Move.writer c .breakWriter c.writer rfl id

theorem closeWriter_move (c : Channel) : Move c .closeWriter c.closeWriter := by
  obtain ⟨writer, heq⟩ := c.closeWriter_eq
  have hclosed := c.isWritable_closeWriter
  rw [heq] at hclosed ⊢
  exact .writer rfl fun _ => hclosed

theorem markExited_move (c : Channel) (code : Option Int) :
    Move c (.markExited code) (c.markExited code) := by
  unfold markExited
  split
  next h => exact .again rfl (by simp [isAlive, h])
  next =>
    refine .ended rfl ?_
    dsimp only
    split
    · exact ⟨rfl, rfl, rfl, rfl, by simp [clear, isAlive], rfl, rfl, rfl, ⟨_, rfl⟩, id⟩
    · exact ⟨rfl, rfl, rfl, rfl, by simp [clear, isAlive, emit], rfl, rfl,
        by simp [streams, clear, emit], ⟨_, rfl⟩, id⟩

theorem dispose_move (c : Channel) : Move c .dispose c.dispose := by
  unfold dispose
  split
  next h => exact .again rfl (by simp [isAlive, h])
  next =>
    refine .ended rfl ?_
    have hclosed := (({ c with disposed := true } : Channel).clear).isWritable_closeWriter
    obtain ⟨writer, heq⟩ := (({ c with disposed := true } : Channel).clear).closeWriter_eq
    rw [heq] at hclosed ⊢
    exact ⟨rfl, rfl, rfl, rfl, by simp [clear, isAlive], rfl, rfl, rfl, ⟨_, rfl⟩, fun _ => hclosed⟩

/-- Every operation makes one of the moves. -/
theorem step_move {c : Channel} (hfit : c.Fits) (op : Op) : Move c op (c.step op) := by
  cases op with
  | send query => exact c.submit_move true query
  | sendDetached query => exact c.submit_move false query
  | startFullBuffer query => exact c.startFullBuffer_move query
  | cancel position => exact c.cancel_move position
  | receive line => exact receive_move hfit
  | breakWriter => exact c.breakWriter_move
  | closeWriter => exact c.closeWriter_move
  | markExited code => exact c.markExited_move code
  | dispose => exact c.dispose_move

end Channel

end VerifierClient
