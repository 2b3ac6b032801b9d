import VerifierClient.Result.Merge
import VerifierClient.Session.Command
import VerifierClient.Session.Side
import VerifierClient.Settings
import VerifierClient.Text.Word
import VerifierClient.Timer.Debounce
import VerifierClient.Timer.JobLimit
import VerifierClient.Timer.RateLimit
import VerifierClient.Uri

/-!
# Document sessions

A session joins one open document with its verifiers. It sends the text to be
checked, folds what the verifiers report into result models, and publishes what
has changed. Commands and channel events wait in two queues; everything that a
session does is the handling of one of their entries.

* `Session.start` — a session that has mapped the document and asked for a check;
* `Session.handle` — what a command does;
* `Session.onChannelEvent` — what a report of a verifier does;
* `Session.publish` — emits the results that differ from those published last.
-/

namespace VerifierClient

-- ---------------------------------------------------------------------------
-- State
-- ---------------------------------------------------------------------------

/-- What a query to the strict verifier was sent for. -/
inductive Question where
  | lookup
  | complete
deriving DecidableEq, Repr, Inhabited

/-- The reply that a response to a question gives. -/
def Question.answer (question : Question) : Except ChannelError Response → Reply
  | .error e => .failed (.channel e)
  | .ok response =>
    match question with
    | .lookup => .info (if response.isSuccess then SymbolInfo.ofJson? response.payload else none)
    | .complete =>
      .completions (if response.isSuccess then Completion.ofResponse response.payload else [])

structure Session where
  uri : Uri
  settings : SessionSettings
  text : String
  strict : Side
  lax : Option Side
  now : Nat := 0
  /-- whether the session takes commands -/
  isOpen : Bool := true
  /-- how far the last bounded request goes, while it is being checked -/
  startedTo : Option Position := none
  /-- asks for a strict check some time after the last edit -/
  reverify : Debouncer
  /-- spaces publications -/
  publisher : RateLimiter
  /-- spaces the checks of the lax verifier -/
  flyCheck : JobLimiter Unit
  /-- whether the check at work waits for the lax verifier to be idle -/
  flyWaiting : Bool := false
  /-- when solvers are to be started again -/
  solverRestarts : List Nat := []
  lastDiagnostics : Option (List Diagnostic) := none
  lastStatus : Option (List FragmentStatus) := none
  /-- commands to be handled -/
  commands : List Command := []
  /-- channel events to be handled -/
  inbox : List (Role × ChannelEvent) := []
  /-- everything published so far -/
  emitted : List SessionEvent := []
  /-- replies that needed no query -/
  replies : List (Nat × Reply) := []
  /-- tickets that wait for a response of the strict verifier -/
  questions : List (Nat × QueryId × Question) := []
deriving Inhabited

namespace Session

/-- The pause between the end of the old solvers and the start of new ones. -/
def solverGrace : Nat := 1000

/-- The path of the document. -/
def path (s : Session) : String := s.uri.toPath

def emit (s : Session) (event : SessionEvent) : Session :=
  { s with emitted := s.emitted ++ [event] }

def alert (s : Session) (message : String) : Session := s.emit (.alert message)

def reply (s : Session) (ticket : Nat) (answer : Reply) : Session :=
  { s with replies := s.replies ++ [(ticket, answer)] }

-- ---------------------------------------------------------------------------
-- Publication
-- ---------------------------------------------------------------------------

/-- The diagnostics as they are to be seen now. -/
def diagnostics (s : Session) : List Diagnostic :=
  mergedDiagnostics s.strict.model (s.lax.map Side.model)

/-- The status as it is to be seen now. -/
def status (s : Session) : List FragmentStatus :=
  mergedStatus s.strict.model (s.lax.map Side.model) s.startedTo

def publishDiagnostics (s : Session) (items : List Diagnostic) : Session :=
  if s.lastDiagnostics = some items then s
  else { s.emit (.diagnostics items) with lastDiagnostics := some items }

def publishStatus (s : Session) (fragments : List FragmentStatus) : Session :=
  if s.lastStatus = some fragments then s
  else { s.emit (.status fragments) with lastStatus := some fragments }

/-- Publishes what differs from the last publication. -/
def publish (s : Session) : Session :=
  (s.publishDiagnostics s.diagnostics).publishStatus s.status

/-- Has the results published soon. -/
def firePublisher (s : Session) : Session := { s with publisher := s.publisher.fire s.now }

-- ---------------------------------------------------------------------------
-- Requests
-- ---------------------------------------------------------------------------

/-- Sends the current text to the strict verifier, which makes the check planned
after an edit needless. -/
def verifyStrict (s : Session) (kind : BufferKind) (position : Option Position) : Session :=
  let (strict, result) := s.strict.issue kind s.text position
  let s := { s with reverify := s.reverify.cancel, strict }
  match result with
  | .ok _ => s
  | .error e => s.alert s!"Verification request failed: {e.message}"

/-- Sends the current text to the lax verifier; says whether it was sent. -/
def refreshLax (s : Session) : Session × Bool :=
  match s.lax with
  | none => (s, false)
  | some side =>
    match side.issue .lax s.text none with
    | (side, .ok _) => ({ s with lax := some side }, true)
    | (side, .error e) =>
      (({ s with lax := some side }).alert s!"Fly-check request failed: {e.message}", false)

/-- Has the whole text checked. A lax request goes to the lax verifier alone. -/
def requestFull (s : Session) (kind : BufferKind) : Session :=
  let s := { s with startedTo := none }
  let s := if kind = .lax then s else s.verifyStrict kind none
  s.refreshLax.1

/-- Has the text checked up to `position`. -/
def requestTo (s : Session) (position : Position) (lax : Bool) : Session :=
  let kind : BufferKind := if lax then .laxToPosition else .verifyToPosition
  (({ s with startedTo := some position }).verifyStrict kind (some position)).firePublisher

/-- Has the lax verifier check the text when its turn comes. -/
def scheduleFlyCheck (s : Session) : Session :=
  if s.settings.flyCheck && s.lax.isSome then { s with flyCheck := s.flyCheck.fire () } else s

-- ---------------------------------------------------------------------------
-- Edits
-- ---------------------------------------------------------------------------

/-- Whether the last request goes past `position`. -/
def covers (s : Session) (position : Position) : Bool :=
  match s.startedTo with
  | some stop => position < stop
  | none => true

/-- Tells the strict side of a new text; work past the edit is cancelled if the
last request covers it, and that request goes no further than the edit. -/
def editStrict (s : Session) (text : String) : Session :=
  let strict := s.strict.textChanged text
  match s.strict.model.editPosition text with
  | none => { s with strict }
  | some position =>
    if s.covers position then
      { s with
        strict := strict.cancel position
        startedTo := s.startedTo.map fun _ => position }
    else { s with strict }

/-- Plans a strict check for the time when the text has not changed for a while. -/
def scheduleReverify (s : Session) : Session :=
  if s.settings.verifyOnChange then { s with reverify := s.reverify.fire s.now } else s

def textChanged (s : Session) (text : String) : Session :=
  if text = s.text then s
  else
    let s := { s with text }.editStrict text
    let s := { s with lax := s.lax.map fun side => Side.edit side text }
    s.scheduleReverify.scheduleFlyCheck.firePublisher

-- ---------------------------------------------------------------------------
-- Questions
-- ---------------------------------------------------------------------------

/-- Sends a query whose response answers the command with this ticket. -/
def ask (s : Session) (ticket : Nat) (question : Question) (query : Query) : Session :=
  let (channel, result) := s.strict.channel.send query
  let s := { s with strict := s.strict.onChannel fun _ => channel }
  match result with
  | .ok id => { s with questions := s.questions ++ [(ticket, id, question)] }
  | .error e => s.reply ticket (.failed (.channel e))

/-- Asks for what is known about the symbol at `position`. -/
def lookup (s : Session) (position : Position) (ticket : Nat) : Session :=
  match Text.wordAt s.text position with
  | none => s.reply ticket (.info none)
  | some (symbol, range) =>
    let filename := s.strict.channel.selfReferenceName (some s.path)
    s.ask ticket .lookup (.lookup symbol range filename position)

/-- Asks for the ways to go on with the word at `position`. -/
def complete (s : Session) (position : Position) (ticket : Nat) : Session :=
  match Text.wordPrefixAt s.text position with
  | none => s.reply ticket (.completions [])
  | some start => s.ask ticket .complete (.autocomplete start)

/-- All replies so far, by ticket. -/
def answers (s : Session) : List (Nat × Reply) :=
  s.replies ++ s.questions.filterMap fun (ticket, id, question) =>
    (s.strict.channel.resolved.find? fun r => r.1 = id).map fun r =>
      (ticket, question.answer r.2)

-- ---------------------------------------------------------------------------
-- Channel events
-- ---------------------------------------------------------------------------

def exitAlert (role : Role) : Option Int → String
  | some code => s!"The {role.title} verifier process exited with code {code}"
  | none => s!"The {role.title} verifier process exited"

/-- Changes the side of `role`, if the session has it. -/
def onSide (s : Session) (role : Role) (f : Side → Side) : Session :=
  match role with
  | .strict => { s with strict := f s.strict }
  | .lax => { s with lax := s.lax.map f }

def onStream (s : Session) (role : Role) (message : StreamMessage) : Session :=
  let s := s.onSide role fun side => side.fold message
  if message.isFinished then
    let s := if role = .strict then { s with startedTo := none } else s
    s.publish.emit (.finished role)
  else s.firePublisher

def onChannelEvent (s : Session) (role : Role) : ChannelEvent → Session
  | .stream message => s.onStream role message
  | .notice n => (s.onSide role fun side => side.addNotice n).firePublisher
  | .exited code =>
    ((s.onSide role fun side => side.onModel ResultModel.channelExited).alert
      (exitAlert role code)).publish

-- ---------------------------------------------------------------------------
-- The ends of a session
-- ---------------------------------------------------------------------------

/-- Maps the document into its verifiers and has it checked. -/
def openDocument (s : Session) : Session :=
  let s := { s with
    strict := s.strict.tell (.vfsAdd s.text)
    lax := s.lax.map fun side => Side.tell side (.vfsAdd s.text) }
  s.requestFull (if s.settings.verifyOnOpen then .full else .cache)

/-- A session with its verifiers launched, before it sends anything. -/
def new (uri : Uri) (text : String) (settings : SessionSettings) (withLax : Bool) (now : Nat) :
    Session :=
  { uri, settings, text, now
    strict := .new .strict uri.toPath text
    lax := if withLax then some (.new .lax uri.toPath text) else none
    reverify := { delay := settings.debounce }
    publisher := { interval := settings.publishInterval }
    flyCheck := { interval := settings.flyCheckInterval } }

/-- Refuses the commands that are left. -/
def refuse (s : Session) (commands : List Command) : Session :=
  commands.foldl (fun s c => match c.ticket? with
    | some ticket => s.reply ticket c.refusal
    | none => s) s

/-- Stops the verifiers, takes back what was published and closes the session. -/
def dispose (s : Session) (ticket : Option Nat) : Session :=
  let s := { s with
    isOpen := false
    reverify := s.reverify.cancel
    strict := s.strict.dispose
    lax := s.lax.map Side.dispose
    lastDiagnostics := some []
    lastStatus := some [] }
  let s := (s.emit (.diagnostics [])).emit (.status [])
  let s := match ticket with
    | some ticket => s.reply ticket .disposed
    | none => s
  { s with commands := [], inbox := [] }.refuse s.commands

-- ---------------------------------------------------------------------------
-- Commands
-- ---------------------------------------------------------------------------

/-- The lax verifier's turn: the check goes on until that verifier is idle, or is
over at once if nothing was sent. -/
def startFlyCheck (s : Session) : Session :=
  match s.refreshLax with
  | (s, true) => { s with flyWaiting := true }
  | (s, false) => { s with flyCheck := s.flyCheck.finish s.now }

def handle (s : Session) : Command → Session
  | .textChanged text => s.textChanged text
  | .requestFull kind => s.requestFull kind
  | .requestTo position lax => s.requestTo position lax
  | .saved => s.requestFull .full
  | .lookup position ticket => s.lookup position ticket
  | .complete position ticket => s.complete position ticket
  | .proofStates line ticket => s.reply ticket (.proofStates (s.strict.model.live.proofStatesAt line))
  | .restartSolver => { s with solverRestarts := s.solverRestarts ++ [s.now + solverGrace] }
  | .verify => s.verifyStrict .full none
  | .publish => s.publish
  | .flyCheck => s.startFlyCheck
  | .dispose ticket => s.dispose ticket

/-- Posts a command; a closed session refuses it. -/
def post (s : Session) (c : Command) : Session :=
  if s.isOpen then { s with commands := s.commands ++ [c] } else s.refuse [c]

end Session

end VerifierClient
