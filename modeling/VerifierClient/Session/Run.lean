import VerifierClient.Session.Basic

/-!
# Runs of a session

A session moves in small steps: a command is posted, an entry of a queue is
handled, a timer runs out, a verifier writes or exits, the clock moves. The steps
may come in any order; one that has nothing to do changes nothing.

* `Session.step`, `Session.run` — single steps, and any list of them;
* `Session.settle` — does all that can be done without the clock moving;
* `Session.due` — when a timer runs out next.
-/

namespace VerifierClient

namespace Session

-- ---------------------------------------------------------------------------
-- Steps
-- ---------------------------------------------------------------------------

inductive Step where
  | post (command : Command)
  /-- the first command waiting is handled -/
  | command
  /-- the first channel event waiting is handled -/
  | event
  /-- the text has not changed for a while -/
  | reverify
  /-- the publisher goes on -/
  | publisher
  /-- the lax verifier's check goes on -/
  | flyCheck
  /-- a solver is started again -/
  | solver
  /-- a verifier writes -/
  | output (role : Role) (bytes : ByteArray)
  /-- a verifier's output ends -/
  | exit (role : Role) (code : Option Int)
  /-- a verifier stops reading -/
  | stopReading (role : Role)
  | tick (ms : Nat)

/-- The side of `role` that is meant when there is one. -/
def side? (s : Session) : Role → Option Side
  | .strict => some s.strict
  | .lax => s.lax

def eventsOf (s : Session) (role : Role) : List ChannelEvent :=
  match s.side? role with
  | some side => side.channel.events
  | none => []

/-- Changes the link to a verifier; the events that its channel emits join the
queue. -/
def onLink (s : Session) (role : Role) (f : Link → Link) : Session :=
  let after := s.onSide role fun side => { side with link := f side.link }
  let fresh := (after.eventsOf role).drop (s.eventsOf role).length
  if s.isOpen then { after with inbox := s.inbox ++ fresh.map fun event => (role, event) } else after

def runReverify (s : Session) : Session :=
  match s.reverify.elapse s.now with
  | (some _, timer) => { s with reverify := timer }.post .verify
  | (none, timer) => { s with reverify := timer }

def runPublisher (s : Session) : Session :=
  match s.publisher.due with
  | none => s
  | some due =>
    if due ≤ s.now then
      match s.publisher.wake with
      | (some _, limiter) => { s with publisher := limiter }.post .publish
      | (none, limiter) => { s with publisher := limiter }
    else s

/-- Whether the check at work is over. -/
def flyCheckOver (s : Session) : Bool :=
  s.flyWaiting && s.lax.all fun side => side.channel.idle

def runFlyCheck (s : Session) : Session :=
  match s.flyCheck.phase with
  | .idle => s
  | .starting _ => { s with flyCheck := s.flyCheck.start.2 }.post .flyCheck
  | .working _ =>
    if s.flyCheckOver then { s with flyWaiting := false, flyCheck := s.flyCheck.finish s.now } else s
  | .spacing due => if due ≤ s.now then { s with flyCheck := s.flyCheck.resume } else s

/-- Starts the solvers again whose time has come. -/
def runSolver (s : Session) : Session :=
  (s.solverRestarts.filter (· ≤ s.now)).foldl
    (fun s _ => { s with strict := s.strict.tell .restartSolver })
    { s with solverRestarts := s.solverRestarts.filter fun due => s.now < due }

/-- Writers that have lost an envelope close. -/
def settleWriters (s : Session) : Session :=
  { s with
    strict := s.strict.onChannel Channel.settleWriter
    lax := s.lax.map fun side => side.onChannel Channel.settleWriter }

def act (s : Session) : Step → Session
  | .post command => s.post command
  | .command =>
    match s.commands with
    | [] => s
    | c :: rest => { s with commands := rest }.handle c
  | .event =>
    match s.inbox with
    | [] => s
    | (role, event) :: rest => { s with inbox := rest }.onChannelEvent role event
  | .reverify => if s.isOpen then s.runReverify else s
  | .publisher => if s.isOpen then s.runPublisher else s
  | .flyCheck => if s.isOpen then s.runFlyCheck else s
  | .solver => s.runSolver
  | .output role bytes => s.onLink role fun link => link.feed bytes
  | .exit role code => s.onLink role fun link => link.close code
  | .stopReading role => s.onLink role fun link => link.onChannel Channel.breakWriter
  | .tick ms => { s with now := s.now + ms }

def step (s : Session) (a : Step) : Session := (s.act a).settleWriters

def run (s : Session) (steps : List Step) : Session := steps.foldl step s

-- ---------------------------------------------------------------------------
-- Settling
-- ---------------------------------------------------------------------------

def isDue (s : Session) (time : Option Nat) : Bool :=
  match time with
  | some t => t ≤ s.now
  | none => false

/-- When the lax verifier's check goes on. -/
def flyCheckDue (s : Session) : Option Nat :=
  match s.flyCheck.phase with
  | .idle => none
  | .starting _ => some s.now
  | .working _ => if s.flyCheckOver then some s.now else none
  | .spacing due => some due

/-- What a session does next when the clock does not move: timers first, then
channel events, then commands. -/
def next? (s : Session) : Option Step :=
  if !s.isOpen then none
  else if s.isDue s.reverify.due then some .reverify
  else if s.isDue s.flyCheckDue then some .flyCheck
  else if s.isDue s.publisher.due then some .publisher
  else if s.isDue s.solverRestarts.min? then some .solver
  else if !s.inbox.isEmpty then some .event
  else if !s.commands.isEmpty then some .command
  else none

/-- No more than this many steps lie ahead when the clock does not move. -/
def workload (s : Session) : Nat :=
  16 * (s.commands.length + s.inbox.length + s.solverRestarts.length + 1)

def settleWithin (s : Session) : Nat → Session
  | 0 => s
  | steps + 1 =>
    match s.next? with
    | some a => (s.step a).settleWithin steps
    | none => s

/-- Does all that can be done without the clock moving. -/
def settle (s : Session) : Session := s.settleWithin s.workload

/-- When a timer runs out next. -/
def due (s : Session) : Option Nat :=
  if s.isOpen then
    (s.reverify.due.toList ++ s.flyCheckDue.toList ++ s.publisher.due.toList ++
      s.solverRestarts).min?
  else none

/-- One step, and all that follows from it. -/
def input (s : Session) (a : Step) : Session := (s.step a).settle

/-- The clock moves to `target`. -/
def wakeAt (s : Session) (target : Nat) : Session := s.input (.tick (target - s.now))

/-- A session of a document whose verifiers have been launched. -/
def start (uri : Uri) (text : String) (settings : SessionSettings) (withLax : Bool) (now : Nat) :
    Session :=
  (new uri text settings withLax now).openDocument

end Session

end VerifierClient
