import VerifierClient.Role
import VerifierClient.Wire.Query
import VerifierClient.Wire.Stream

/-!
# The query channel

A channel talks to one verifier. It numbers the queries it sends and keeps track
of those that wait for a response. At most one full-buffer query is in flight:
while it is, ordinary queries are held back, to be sent in the order of their
submission once it has finished, and of the full-buffer queries submitted
meanwhile only the last one is kept, to be sent after them.

The state records everything that leaves the channel: the envelopes that the
writer accepted, the events for the session, and how queries were resolved.

* `Channel.send`, `Channel.sendDetached`, `Channel.startFullBuffer`,
  `Channel.cancel` — what the session asks for;
* `Channel.receive` — what a line from the verifier does;
* `Channel.markExited`, `Channel.dispose` — the two ways to end;
* `Channel.run` — any list of these.
-/

namespace VerifierClient

-- ---------------------------------------------------------------------------
-- Results
-- ---------------------------------------------------------------------------

/-- Why a channel takes no more queries. -/
inductive ChannelError where
  | exited (role : Role)
  | disposed (role : Role)
deriving DecidableEq, Repr, Inhabited

def ChannelError.message : ChannelError → String
  | exited role => s!"{role.title} verifier process has exited"
  | disposed role => s!"{role.title} verifier channel was disposed"

/-- The answer to an ordinary query. -/
structure Response where
  status : ResponseStatus
  payload : Json
deriving Repr, Inhabited

def Response.isSuccess (r : Response) : Bool := r.status == .success

/-- What the session is told. -/
inductive ChannelEvent where
  /-- a part of the full-buffer sequence in flight -/
  | stream (message : StreamMessage)
  /-- a message about an ordinary query, or about none -/
  | notice (n : Notice)
  /-- the verifier is gone -/
  | exited (code : Option Int)
deriving DecidableEq, Repr, Inhabited

-- ---------------------------------------------------------------------------
-- State
-- ---------------------------------------------------------------------------

/-- Where envelopes go. When the verifier has stopped reading, the writer first
accepts an envelope that is lost, and then is closed; it has delivered the given
number of envelopes. -/
inductive WriterState where
  | opened
  | failing (delivered : Nat)
  | closed (delivered : Nat)
deriving DecidableEq, Repr, Inhabited

/-- The full-buffer query in flight, and what waits for its end. -/
structure BufferSession where
  current : QueryId
  /-- ordinary queries held back -/
  queued : List Envelope := []
  /-- the full-buffer query to be sent next -/
  replacement : Option Query := none
deriving Repr, Inhabited

structure Channel where
  role : Role
  /-- the id given out last -/
  lastId : Nat := 0
  /-- queries that wait for a response -/
  pending : List QueryId := []
  /-- queries whose response nobody waits for -/
  detached : List QueryId := []
  fullBuffer : Option BufferSession := none
  capabilities : Option Capabilities := none
  exited : Bool := false
  disposed : Bool := false
  /-- the flag that those watch who wait for the end of a sequence -/
  idle : Bool := true
  writer : WriterState := .opened
  /-- the envelopes that the writer accepted -/
  accepted : List Envelope := []
  events : List ChannelEvent := []
  resolved : List (QueryId × Except ChannelError Response) := []
deriving Inhabited

namespace Channel

def inFlight (c : Channel) : Bool := c.fullBuffer.isSome

/-- The envelopes that reached the verifier. -/
def delivered (c : Channel) : List Envelope :=
  match c.writer with
  | .opened => c.accepted
  | .failing n => c.accepted.take n
  | .closed n => c.accepted.take n

def selfReferenceName (c : Channel) (path : Option String) : String :=
  (c.capabilities.getD {}).selfReferenceName path

/-- The error of a channel that has ended. -/
def closedError (c : Channel) : ChannelError :=
  if c.disposed then .disposed c.role else .exited c.role

def isAlive (c : Channel) : Bool := !c.disposed && !c.exited

-- ---------------------------------------------------------------------------
-- Writing
-- ---------------------------------------------------------------------------

/-- Hands an envelope to the writer, which may refuse it. -/
def write (c : Channel) (e : Envelope) : Channel × Bool :=
  match c.writer with
  | .closed _ => (c, false)
  | _ => ({ c with accepted := c.accepted ++ [e] }, true)

/-- The verifier stops reading. -/
def breakWriter (c : Channel) : Channel :=
  match c.writer with
  | .opened => { c with writer := .failing c.accepted.length }
  | _ => c

/-- The writer takes nothing more. -/
def closeWriter (c : Channel) : Channel :=
  match c.writer with
  | .opened => { c with writer := .closed c.accepted.length }
  | .failing n => { c with writer := .closed n }
  | .closed _ => c

/-- A writer that has lost an envelope closes. -/
def settleWriter (c : Channel) : Channel :=
  match c.writer with
  | .failing n => if n < c.accepted.length then c.closeWriter else c
  | _ => c

/-- The id that the next query gets. Ids are given out in turn, and from the start
again when all of them have been. -/
def nextId (c : Channel) : QueryId := ⟨(c.lastId + 1) % QueryId.limit⟩

/-- Gives `query` the next id. -/
def allocate (c : Channel) (query : Query) : Channel × Envelope :=
  ({ c with lastId := c.nextId.number }, ⟨c.nextId, query⟩)

/-- Sends an ordinary query, or holds it back while a sequence is in flight. -/
def route (c : Channel) (e : Envelope) : Channel × Bool :=
  match c.fullBuffer with
  | some session =>
    ({ c with fullBuffer := some { session with queued := session.queued ++ [e] } }, true)
  | none => c.write e

-- ---------------------------------------------------------------------------
-- Queries
-- ---------------------------------------------------------------------------

/-- Enters a query in the table of those whose response is waited for, or of those
whose response is dropped. -/
def register (c : Channel) (waited : Bool) (id : QueryId) : Channel :=
  if waited then { c with pending := c.pending ++ [id] }
  else { c with detached := c.detached ++ [id] }

/-- Sends an ordinary query. -/
def submit (c : Channel) (waited : Bool) (query : Query) :
    Channel × Except ChannelError QueryId :=
  if c.isAlive then
    let (c, e) := c.allocate query
    match c.route e with
    | (c, true) => (c.register waited e.id, .ok e.id)
    | (c, false) => (c, .error (.exited c.role))
  else (c, .error c.closedError)

/-- Sends a query whose response is waited for. -/
def send (c : Channel) (query : Query) : Channel × Except ChannelError QueryId :=
  c.submit true query

/-- Sends a query whose response is dropped. -/
def sendDetached (c : Channel) (query : Query) : Channel × Except ChannelError QueryId :=
  c.submit false query

/-- Sends a full-buffer query, which is in flight from now on. -/
def dispatchFullBuffer (c : Channel) (query : Query) : Channel × Except ChannelError Unit :=
  let (c, e) := c.allocate query
  match c.write e with
  | (c, true) => ({ c with fullBuffer := some { current := e.id }, idle := false }, .ok ())
  | (c, false) => (c, .error (.exited c.role))

/-- Starts a full-buffer query, or lets it wait for the end of the one in flight
in the place of the one that waited before. -/
def startFullBuffer (c : Channel) (query : Query) : Channel × Except ChannelError Unit :=
  if c.isAlive then
    match c.fullBuffer with
    | some session =>
      ({ c with fullBuffer := some { session with replacement := some query } }, .ok ())
    | none => c.dispatchFullBuffer query
  else (c, .error c.closedError)

/-- Asks the verifier to give up the work past `position`, ahead of the queries
held back. Says whether it was asked. -/
def cancel (c : Channel) (position : Position) : Channel × Bool :=
  if c.inFlight && c.isAlive then
    let (c, e) := c.allocate (.cancel position)
    match c.write e with
    | (c, true) => (c.register false e.id, true)
    | (c, false) => (c, false)
  else (c, false)

/-- Sends envelopes up to the first one that is refused. -/
def flush (c : Channel) : List Envelope → Channel
  | [] => c
  | e :: rest =>
    match c.write e with
    | (c, true) => c.flush rest
    | (c, false) => c

/-- The sequence in flight is over: sends what was held back, then the full-buffer
query that waits. -/
def finishFullBuffer (c : Channel) : Channel :=
  match c.fullBuffer with
  | none => c
  | some session =>
    let c := ({ c with fullBuffer := none }).flush session.queued
    match session.replacement with
    | none => { c with idle := true }
    | some query =>
      match c.dispatchFullBuffer query with
      | (c, .ok _) => c
      | (c, .error _) => { c with idle := true }

-- ---------------------------------------------------------------------------
-- Lines
-- ---------------------------------------------------------------------------

/-- Whether the message with this id belongs to the sequence in flight. -/
def isStreaming (c : Channel) (rawId : String) : Bool :=
  match c.fullBuffer, QueryId.owner? rawId with
  | some session, some id => session.current == id
  | _, _ => false

/-- Whether a message with this id is about a query in the tables, or about none. -/
def isKnown (c : Channel) (rawId : String) : Bool :=
  rawId.isEmpty ||
    match QueryId.owner? rawId with
    | some id => c.pending.contains id || c.detached.contains id
    | none => false

def emit (c : Channel) (event : ChannelEvent) : Channel := { c with events := c.events ++ [event] }

/-- A message of the sequence in flight. -/
def receiveStream (c : Channel) (incoming : Incoming) : Channel :=
  match StreamMessage.ofIncoming? incoming with
  | none => c
  | some message =>
    let c := c.emit (.stream message)
    if message.isFinished then c.finishFullBuffer else c

/-- A response, which resolves the query with exactly its id. -/
def receiveResponse (c : Channel) (rawId : String) (response : Response) : Channel :=
  match QueryId.parse? rawId with
  | none => c
  | some id =>
    if c.pending.contains id then
      { c with
        pending := c.pending.filter (· ≠ id)
        resolved := c.resolved ++ [(id, .ok response)] }
    else { c with detached := c.detached.filter (· ≠ id) }

/-- A message about an ordinary query; only notices are passed on. -/
def receiveMessage (c : Channel) (rawId : String) (incoming : Incoming) : Channel :=
  if c.isKnown rawId then
    match StreamMessage.ofIncoming? incoming with
    | some (.notice n) => c.emit (.notice n)
    | _ => c
  else c

def receiveIncoming (c : Channel) (incoming : Incoming) : Channel :=
  match incoming with
  | .protocolInfo version features =>
    { c with capabilities := some (.ofHandshake version features) }
  | .response rawId status payload =>
    if c.isStreaming rawId then c.receiveStream incoming
    else c.receiveResponse rawId ⟨status, payload⟩
  | .message rawId _ _ =>
    if c.isStreaming rawId then c.receiveStream incoming else c.receiveMessage rawId incoming

/-- A line from the verifier; one that is no message is dropped. -/
def receive (c : Channel) (line : String) : Channel :=
  match Incoming.parse? line with
  | some incoming => c.receiveIncoming incoming
  | none => c

-- ---------------------------------------------------------------------------
-- Ends
-- ---------------------------------------------------------------------------

/-- Resolves every waiting query with the error of the channel, and forgets what
was in flight. -/
def clear (c : Channel) : Channel :=
  { c with
    pending := []
    detached := []
    fullBuffer := none
    idle := true
    resolved := c.resolved ++ c.pending.map fun id => (id, .error c.closedError) }

/-- The verifier's output has ended. -/
def markExited (c : Channel) (code : Option Int) : Channel :=
  if c.exited then c
  else
    let c := ({ c with exited := true }).clear
    if c.disposed then c else c.emit (.exited code)

/-- The session needs the channel no more. -/
def dispose (c : Channel) : Channel :=
  if c.disposed then c else ({ c with disposed := true }).clear.closeWriter

-- ---------------------------------------------------------------------------
-- Runs
-- ---------------------------------------------------------------------------

/-- What can happen to a channel. -/
inductive Op where
  | send (query : Query)
  | sendDetached (query : Query)
  | startFullBuffer (query : Query)
  | cancel (position : Position)
  | receive (line : String)
  | breakWriter
  | closeWriter
  | markExited (code : Option Int)
  | dispose
deriving Repr

def step (c : Channel) : Op → Channel
  | .send query => (c.send query).1
  | .sendDetached query => (c.sendDetached query).1
  | .startFullBuffer query => (c.startFullBuffer query).1
  | .cancel position => (c.cancel position).1
  | .receive line => c.receive line
  | .breakWriter => c.breakWriter
  | .closeWriter => c.closeWriter
  | .markExited code => c.markExited code
  | .dispose => c.dispose

def run (c : Channel) (ops : List Op) : Channel := ops.foldl step c

end Channel

end VerifierClient
