import VerifierClient.Host.Launch
import VerifierClient.Session.Run
import VerifierClient.Store

/-!
# The registry of open documents

The registry keeps a session for every open document and the results that the
sessions published. What sessions emit waits in one queue; the results change
when the queue is read.

* `Registry.openPath`, `Registry.close`, `Registry.restart`, `Registry.shutdown`
  — begin and end sessions;
* `Registry.changed`, `Registry.saved`, `Registry.requestFull` — pass on what
  editors report;
* `Registry.poll`, `Registry.takeEvents` — read the queue;
* `Registry.elapse` — moves the clock;
* `Registry.run` — any list of these.
-/

namespace VerifierClient

-- ---------------------------------------------------------------------------
-- State
-- ---------------------------------------------------------------------------

structure Document where
  /-- the number of its session -/
  session : Nat
  /-- the last text that the editor reported -/
  text : String
deriving DecidableEq, Repr, Inhabited

/-- A launched verifier. -/
structure Verifier where
  /-- the number of the session that it belongs to -/
  session : Nat
  role : Role
  /-- the path of the document -/
  document : String
deriving DecidableEq, Repr, Inhabited

structure Registry where
  settings : SessionSettings
  /-- the directory that relative paths start from -/
  cwd : String := "/"
  now : Nat := 0
  /-- the sessions by number, closed ones included -/
  sessions : List Session := []
  documents : Table Uri Document := []
  /-- verifiers by number -/
  verifiers : List Verifier := []
  /-- what was emitted and not yet read -/
  queue : List (Uri × SessionEvent) := []
  store : Store := {}
  alerts : List (Uri × String) := []
deriving Inhabited

namespace Registry

def isOpen (r : Registry) (uri : Uri) : Bool := r.documents.contains uri

/-- The session of an open document. -/
def session? (r : Registry) (uri : Uri) : Option Session :=
  (r.documents.get? uri).bind fun doc => r.sessions[doc.session]?

-- ---------------------------------------------------------------------------
-- Sessions
-- ---------------------------------------------------------------------------

/-- Changes a session; what it emits joins the queue. -/
def onSession (r : Registry) (number : Nat) (f : Session → Session) : Registry :=
  match r.sessions[number]? with
  | none => r
  | some before =>
    let after := f before
    { r with
      sessions := r.sessions.set number after
      queue := r.queue ++ (after.emitted.drop before.emitted.length).map fun e => (before.uri, e) }

/-- A step of a session, and all that follows from it. -/
def input (r : Registry) (number : Nat) (a : Session.Step) : Registry :=
  r.onSession number fun s => s.input a

def post (r : Registry) (number : Nat) (c : Command) : Registry := r.input number (.post c)

/-- A step of a verifier. -/
def onVerifier (r : Registry) (number : Nat) (a : Role → Session.Step) : Registry :=
  match r.verifiers[number]? with
  | some p => r.input p.session (a p.role)
  | none => r

/-- Puts a session in place that has just started; `alerts` came up before. -/
def addSession (r : Registry) (s : Session) (alerts : List String) : Registry :=
  let number := r.sessions.length
  let launched := Verifier.mk number .strict s.path ::
    (s.lax.toList.map fun _ => Verifier.mk number .lax s.path)
  { r with
    sessions := r.sessions ++ [s]
    documents := r.documents.insert s.uri ⟨number, s.text⟩
    verifiers := r.verifiers ++ launched
    queue := r.queue ++ (alerts.map SessionEvent.alert ++ s.emitted).map fun e => (s.uri, e) }

/-- Launches the verifiers of a document and starts its session. Only the strict
verifier is needed; when the lax one is missing, the user is told. -/
def start (r : Registry) (launch : Launcher) (uri : Uri) (text : String) :
    Registry × Except LaunchError Unit :=
  match launch .strict uri.toPath with
  | .error e => (r, .error ⟨s!"starting {Role.strict.title} verifier" :: e.causes⟩)
  | .ok _ =>
    let began := fun withLax => Session.start uri text r.settings withLax r.now
    if r.settings.flyCheck then
      match launch .lax uri.toPath with
      | .ok _ => (r.addSession (began true) [], .ok ())
      | .error e =>
        (r.addSession (began false)
          [s!"Could not start the {Role.lax.title} verifier: {e.chain}"], .ok ())
    else (r.addSession (began false) [], .ok ())

/-- Takes a document from the open ones and closes its session. -/
def drop (r : Registry) (uri : Uri) : Registry :=
  match r.documents.get? uri with
  | none => r
  | some doc => { r with documents := r.documents.erase uri }.post doc.session (.dispose none)

-- ---------------------------------------------------------------------------
-- Documents
-- ---------------------------------------------------------------------------

/-- Opens the document at `path` and has it checked. A session that it has already
is replaced. -/
def openPath (r : Registry) (launch : Launcher) (path text : String) :
    Registry × Except LaunchError Uri :=
  match documentUri r.cwd path with
  | .error e => (r, .error ⟨e.causes⟩)
  | .ok uri =>
    match (r.drop uri).start launch uri text with
    | (r, .ok _) => (r, .ok uri)
    | (r, .error e) => (r, .error e)

/-- Passes a command on to the session of an open document. -/
def forward (r : Registry) (uri : Uri) (c : Command) : Registry :=
  match r.documents.get? uri with
  | some doc => r.post doc.session c
  | none => r

def changed (r : Registry) (uri : Uri) (text : String) : Registry :=
  { r with documents := r.documents.modify uri fun doc => { doc with text } }.forward uri
    (.textChanged text)

def saved (r : Registry) (uri : Uri) : Registry := r.forward uri .saved

def requestFull (r : Registry) (uri : Uri) (kind : BufferKind) : Registry :=
  r.forward uri (.requestFull kind)

/-- Ends the session of a document and forgets what it published. -/
def close (r : Registry) (uri : Uri) : Registry :=
  if r.isOpen uri then
    let r := r.drop uri
    { r with store := r.store.remove uri }
  else r

/-- Replaces the session of an open document by one with its last text. -/
def restart (r : Registry) (launch : Launcher) (uri : Uri) : Registry × Except LaunchError Unit :=
  match r.documents.get? uri with
  | none => (r, .error ⟨[s!"{uri.text} is not open"]⟩)
  | some doc => (r.drop uri).start launch uri doc.text

/-- Ends every session. -/
def shutdown (r : Registry) : Registry := r.documents.foldl (fun r doc => r.drop doc.1) r

-- ---------------------------------------------------------------------------
-- Events
-- ---------------------------------------------------------------------------

/-- Records an event. Results of a document that is not open are not recorded,
unless they are empty. -/
def record (r : Registry) (uri : Uri) : SessionEvent → Registry
  | .diagnostics items =>
    if r.isOpen uri || items.isEmpty then { r with store := r.store.updateDiagnostics uri items }
    else r
  | .status fragments =>
    if r.isOpen uri || fragments.isEmpty then { r with store := r.store.updateStatus uri fragments }
    else r
  | .alert message => { r with alerts := r.alerts ++ [(uri, message)] }
  | .finished _ => r

/-- Reads up to `budget` events from the queue and gives them back. -/
def readEvents (r : Registry) (budget : Nat) : Registry × List (Uri × SessionEvent) :=
  let events := r.queue.take budget
  (events.foldl (fun r (uri, e) => r.record uri e) { r with queue := r.queue.drop budget }, events)

/-- Reads up to `budget` events; says how many there were. -/
def poll (r : Registry) (budget : Nat) : Registry × Nat :=
  let (r, events) := r.readEvents budget
  (r, events.length)

/-- Reads all events. -/
def takeEvents (r : Registry) : Registry × List (Uri × SessionEvent) :=
  r.readEvents r.queue.length

/-- The alerts since the last call. -/
def takeAlerts (r : Registry) : Registry × List (Uri × String) := ({ r with alerts := [] }, r.alerts)

def snapshot (r : Registry) : Snapshot := r.store.snapshot

-- ---------------------------------------------------------------------------
-- Time
-- ---------------------------------------------------------------------------

/-- The session whose timer runs out first, with its number and that time. -/
def nextDue? (r : Registry) : Option (Nat × Nat) :=
  (r.sessions.zipIdx.filterMap fun (s, number) => s.due.map fun t => (t, number)).foldl
    (fun best entry => match best with
      | some b => if b.1 ≤ entry.1 then some b else some entry
      | none => some entry) none

/-- Runs the timers that run out up to the time `target`, in the order of time. -/
def wakeWithin (r : Registry) (target : Nat) : Nat → Registry
  | 0 => r
  | wakes + 1 =>
    match r.nextDue? with
    | some (t, number) =>
      if t ≤ target then (r.onSession number fun s => s.wakeAt t).wakeWithin target wakes else r
    | none => r

/-- No more than this many timers run out when nothing else happens. -/
def wakesLeft (r : Registry) : Nat := r.sessions.foldr (fun s wakes => s.workload + wakes) 0

/-- Moves the clock by `ms` milliseconds. -/
def elapse (r : Registry) (ms : Nat) : Registry :=
  let target := r.now + ms
  let r := r.wakeWithin target r.wakesLeft
  { r with now := target, sessions := r.sessions.map fun s => { s with now := target } }

-- ---------------------------------------------------------------------------
-- Runs
-- ---------------------------------------------------------------------------

/-- What can happen to a registry. -/
inductive Op where
  | openPath (launch : Launcher) (path text : String)
  | changed (uri : Uri) (text : String)
  | saved (uri : Uri)
  | requestFull (uri : Uri) (kind : BufferKind)
  | close (uri : Uri)
  | restart (launch : Launcher) (uri : Uri)
  | shutdown
  | poll (budget : Nat)
  | takeAlerts
  /-- something happens to the session with this number -/
  | input (number : Nat) (step : Session.Step)
  | elapse (ms : Nat)

def step (r : Registry) : Op → Registry
  | .openPath launch path text => (r.openPath launch path text).1
  | .changed uri text => r.changed uri text
  | .saved uri => r.saved uri
  | .requestFull uri kind => r.requestFull uri kind
  | .close uri => r.close uri
  | .restart launch uri => (r.restart launch uri).1
  | .shutdown => r.shutdown
  | .poll budget => (r.poll budget).1
  | .takeAlerts => r.takeAlerts.1
  | .input number a => r.input number a
  | .elapse ms => r.elapse ms

def run (r : Registry) (ops : List Op) : Registry := ops.foldl step r

end Registry

end VerifierClient
