import Mathlib.Data.List.Induction
import VerifierClient.Proofs.Channel.Moves

/-!
# The journal of a channel

What a run of a channel does is read off its steps: which envelopes each step
wrote and for which purpose, which queries it accepted, which ids it gave out. The
journal lists what was written, together with the moments at which the message
came that ended the sequence in flight.

* `Channel.along` — what the steps of a run yield, in order;
* `Channel.run_induction` — induction on the last operation of a run;
* `Channel.move_induction` — the same, with the move that the operation made;
* `Channel.journal`, `Channel.submissions` — what was written, what was accepted.
-/

namespace VerifierClient.Channel

-- ---------------------------------------------------------------------------
-- Runs
-- ---------------------------------------------------------------------------

theorem run_append (c : Channel) (past rest : List Op) :
    c.run (past ++ rest) = (c.run past).run rest :=
  List.foldl_append ..

theorem run_concat (c : Channel) (past : List Op) (op : Op) :
    c.run (past ++ [op]) = (c.run past).step op :=
  run_append c past [op]

/-- What holds at first and is passed on by every step holds of every run. -/
theorem run_induction {c : Channel} {P : List Op → Channel → Prop} (hnil : P [] c)
    (hstep : ∀ past op, P past (c.run past) → P (past ++ [op]) ((c.run past).step op))
    (ops : List Op) : P ops (c.run ops) := by
  induction ops using List.reverseRecOn with
  | nil => exact hnil
  | append_singleton past op ih =>
    rw [run_concat]
    exact hstep past op ih

/-- What the steps of a run yield, in order. -/
def along {α : Type} (f : Channel → Op → Channel → List α) : Channel → List Op → List α
  | _, [] => []
  | c, op :: ops => f c op (c.step op) ++ along f (c.step op) ops

theorem along_append {α : Type} (f : Channel → Op → Channel → List α) (c : Channel)
    (past rest : List Op) :
    along f c (past ++ rest) = along f c past ++ along f (c.run past) rest := by
  induction past generalizing c with
  | nil => rfl
  | cons op past ih =>
    rw [List.cons_append, along, along, ih, List.append_assoc]
    rfl

theorem along_concat {α : Type} (f : Channel → Op → Channel → List α) (c : Channel)
    (past : List Op) (op : Op) :
    along f c (past ++ [op]) = along f c past ++ f (c.run past) op ((c.run past).step op) := by
  rw [along_append, along, along, List.append_nil]

-- ---------------------------------------------------------------------------
-- Ids in flight
-- ---------------------------------------------------------------------------

theorem nextId_lt (c : Channel) : c.nextId.number < QueryId.limit :=
  Nat.mod_lt _ (by decide)

/-- The id in flight after a move is the one before it or a new one. -/
theorem Move.current? {c c' : Channel} {op : Op} (h : Move c op c') {id : QueryId}
    (hid : c'.current? = some id) : c.current? = some id ∨ id.number < QueryId.limit := by
  cases h with
  | write | cancel =>
    left
    simpa [Channel.current?, spend, accept] using hid
  | hold _ hflight =>
    left
    simpa [Channel.current?, spend, Channel.hold, hflight] using hid
  | launch =>
    right
    cases hid
    exact nextId_lt _
  | relaunch =>
    right
    cases hid
    exact nextId_lt _
  | replace _ hflight =>
    left
    simpa [Channel.current?, hflight] using hid
  | finish => cases hid
  | abandon => cases hid
  | aside _ haside =>
    left
    cases haside <;> exact hid
  | ended _ hend =>
    rw [Channel.current?, hend.fullBuffer] at hid
    cases hid
  | _ =>
    left
    exact hid

theorem Move.fits {c c' : Channel} {op : Op} (h : Move c op c') (hc : c.Fits) : c'.Fits := by
  intro id hid
  rcases h.current? hid with hold | hnew
  · exact hc id hold
  · exact hnew

theorem fits_run (role : Role) (ops : List Op) : (run { role } ops).Fits := by
  refine run_induction (P := fun _ c => c.Fits) (fun id hid => by cases hid) ?_ ops
  intro past op hc
  exact (step_move hc op).fits hc

/-- What every move passes on holds of every run. -/
theorem move_induction {role : Role} {P : List Op → Channel → Prop} (hnil : P [] { role })
    (hmove : ∀ past op c', P past (run { role } past) → Move (run { role } past) op c' →
      c' = (run { role } past).step op → P (past ++ [op]) c')
    (ops : List Op) : P ops (run { role } ops) := by
  refine run_induction hnil ?_ ops
  intro past op h
  exact hmove past op _ h (step_move (fits_run role past) op) rfl

-- ---------------------------------------------------------------------------
-- What a step writes
-- ---------------------------------------------------------------------------

/-- An entry of the journal. -/
inductive Mark where
  /-- the envelope of an ordinary query was written -/
  | ordinary (e : Envelope)
  /-- the envelope of a full-buffer query was written -/
  | fullBuffer (e : Envelope)
  /-- the envelope of a cancel was written -/
  | cancel (e : Envelope)
  /-- the message came that ends the sequence of the query `id` -/
  | finished (id : QueryId)

namespace Mark

def envelope? : Mark → Option Envelope
  | ordinary e | fullBuffer e | cancel e => some e
  | finished _ => none

def ordinary? : Mark → Option Envelope
  | ordinary e => some e
  | _ => none

def fullBuffer? : Mark → Option Envelope
  | fullBuffer e => some e
  | _ => none

end Mark

/-- The envelopes written in the step from `c` to `c'`. -/
def written (c c' : Channel) : List Envelope := c'.accepted.drop c.accepted.length

/-- The id of the query in flight, if the line carries the message that ends its
sequence. -/
def endedBy? (c : Channel) (line : String) : Option QueryId :=
  c.current?.filter fun id => (StreamMessage.ofLine? id line).any StreamMessage.isFinished

/-- The journal of the step from `c` to `c'`. When a sequence ends, the queries it
held back go out first, and what is written after them is the next full-buffer
query. -/
def marks (c : Channel) (op : Op) (c' : Channel) : List Mark :=
  match op with
  | .startFullBuffer _ => (written c c').map .fullBuffer
  | .cancel _ => (written c c').map .cancel
  | .receive line =>
    match c.endedBy? line with
    | some id =>
      .finished id :: ((written c c').take c.heldBack.length).map .ordinary ++
        ((written c c').drop c.heldBack.length).map .fullBuffer
    | none => (written c c').map .ordinary
  | _ => (written c c').map .ordinary

/-- The ordinary query that the operation submits, if the channel accepts it. -/
def submitted (c : Channel) (op : Op) : List Envelope :=
  match op with
  | .send query =>
    match (c.send query).2 with
    | .ok id => [⟨id, query⟩]
    | .error _ => []
  | .sendDetached query =>
    match (c.sendDetached query).2 with
    | .ok id => [⟨id, query⟩]
    | .error _ => []
  | _ => []

/-- Everything that a run writes, with its purpose, and the ends of sequences. -/
def journal : Channel → List Op → List Mark := along marks

/-- The ordinary queries that a run accepts. -/
def submissions : Channel → List Op → List Envelope := along fun c op _ => c.submitted op

/-- The line that ends the sequence whose messages carry the id `rawId`. -/
def finishedLine (rawId : String) : String :=
  "\x7b\"kind\":\"message\",\"query-id\":\"" ++ rawId ++
    "\",\"level\":\"progress\",\"contents\":\x7b\"stage\":\"full-buffer-finished\"\x7d\x7d"

theorem written_append {c c' : Channel} {envelopes : List Envelope}
    (h : c'.accepted = c.accepted ++ envelopes) : written c c' = envelopes := by
  rw [written, h, List.drop_left]

theorem written_nil {c c' : Channel} (h : c'.accepted = c.accepted) : written c c' = [] :=
  written_append (h.trans (List.append_nil _).symm)

theorem submitted_submit {c : Channel} {waited : Bool} {query : Query} (halive : c.isAlive = true)
    (hroute : c.inFlight = true ∨ c.isWritable = true) :
    c.submitted (.submit waited query) = [⟨c.nextId, query⟩] := by
  have hok : ∀ waited, (c.submit waited query).2 = .ok c.nextId :=
    fun _ => submit_eq_ok_iff.2 ⟨halive, hroute, rfl⟩
  cases waited
  · show (match (c.submit false query).2 with | .ok id => _ | .error _ => _) = _
    rw [hok]
  · show (match (c.submit true query).2 with | .ok id => _ | .error _ => _) = _
    rw [hok]

-- ---------------------------------------------------------------------------
-- Marks of moves
-- ---------------------------------------------------------------------------

theorem marks_nil {c c' : Channel} {op : Op} (h : c'.accepted = c.accepted)
    (hline : ∀ line, op = .receive line → c.endedBy? line = none) : marks c op c' = [] := by
  unfold marks
  rw [written_nil h]
  cases op with
  | receive line => simp [hline line rfl]
  | _ => rfl

theorem marks_of_request {c c' : Channel} {op : Op} (hop : op.isRequest = true)
    (h : c'.accepted = c.accepted) : marks c op c' = [] := by
  refine marks_nil h ?_
  rintro line rfl
  cases hop

theorem marks_submit (c c' : Channel) (waited : Bool) (query : Query) :
    marks c (.submit waited query) c' = (written c c').map .ordinary := by
  cases waited <;> rfl

theorem endedBy?_of_message {c : Channel} {session : BufferSession} {line : String}
    {message : StreamMessage} (hflight : c.fullBuffer = some session)
    (hmessage : StreamMessage.ofLine? session.current line = some message) :
    c.endedBy? line = if message.isFinished then some session.current else none := by
  rw [endedBy?, current?_of_flight hflight, Option.filter_some, hmessage]
  rfl

theorem endedBy?_of_none {c : Channel} {line : String}
    (hmessage : ∀ session, c.fullBuffer = some session →
      StreamMessage.ofLine? session.current line = none) : c.endedBy? line = none := by
  cases hflight : c.fullBuffer with
  | none => rw [endedBy?, current?_of_idle hflight, Option.filter_none]
  | some session =>
    rw [endedBy?, current?_of_flight hflight, Option.filter_some, hmessage session hflight]
    rfl

/-- The end of a sequence lets out what it held back, and then what follows it. -/
theorem marks_finish {c c' : Channel} {session : BufferSession} {line : String}
    {message : StreamMessage} {next : List Envelope} (hflight : c.fullBuffer = some session)
    (hmessage : StreamMessage.ofLine? session.current line = some message)
    (hfinished : message.isFinished = true)
    (haccepted : c'.accepted = c.accepted ++ session.queued ++ next) :
    marks c (.receive line) c' =
      .finished session.current :: session.queued.map .ordinary ++ next.map .fullBuffer := by
  have hended : c.endedBy? line = some session.current := by
    rw [endedBy?_of_message hflight hmessage, if_pos hfinished]
  have hwritten : written c c' = session.queued ++ next :=
    written_append (by rw [haccepted, List.append_assoc])
  simp only [marks, hended, hwritten, heldBack_of_flight hflight, List.take_left, List.drop_left]

end VerifierClient.Channel
