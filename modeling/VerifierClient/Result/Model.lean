import VerifierClient.Result.Pass
import VerifierClient.Text.Offset

/-!
# The result model of a verifier

One verifier's stream is folded into a live set of results. A sequence first
replays cached fragments, and until it comes to a fragment that is checked
afresh its results are gathered in a shadow set, so that what was published does
not fall back to "unverified". The shadow set takes the place of the live one
when fresh checking starts or the sequence ends.

* `ResultModel.fold` — the effect of a stream message;
* `ResultModel.step`, `ResultModel.run` — the effect of every kind of event, and
  of a list of them.
-/

namespace VerifierClient

inductive Phase where
  | idle
  /-- a sequence has started and no fragment was checked afresh yet -/
  | replaying
  | checking
deriving DecidableEq, Repr, Inhabited

structure ResultModel where
  document : Option String
  live : PassResults
  shadow : Option PassResults := none
  phase : Phase := .idle
  /-- the text of the newest query -/
  lastSent : String
  /-- the editor's text -/
  currentText : String
  /-- the text of the sequence in flight -/
  inFlightText : Option String := none
  /-- the text of the query that waits behind it -/
  queuedText : Option String := none
deriving DecidableEq, Repr, Inhabited

namespace ResultModel

/-- The model of a document with the given text, before anything was asked. -/
def new (document : Option String) (text : String) : ResultModel :=
  { document, live := { sourceText := text }, lastSent := text, currentText := text }

def inSequence (m : ResultModel) : Bool := m.inFlightText.isSome

/-- The set that results go to. -/
def active (m : ResultModel) : PassResults := m.shadow.getD m.live

/-- Changes the set that results go to. -/
def updateActive (m : ResultModel) (f : PassResults → PassResults) : ResultModel :=
  match m.shadow with
  | some shadow => { m with shadow := some (f shadow) }
  | none => { m with live := f m.live }

-- ---------------------------------------------------------------------------
-- Requests and edits
-- ---------------------------------------------------------------------------

/-- A full-buffer query with `text` was handed to the channel, where it waits
behind the one in flight. -/
def requestIssued (m : ResultModel) (text : String) : ResultModel :=
  let m := { m with lastSent := text, currentText := text }
  if m.inSequence then { m with queuedText := some text } else { m with inFlightText := some text }

/-- Results past `pos` are out of date. -/
def invalidate (m : ResultModel) (pos : Position) : ResultModel :=
  { m with
    live := m.live.invalidate pos
    shadow := m.shadow.map fun shadow => shadow.invalidate pos }

/-- The first place at which `text` differs from the text sent last. -/
def editPosition (m : ResultModel) (text : String) : Option Position :=
  Text.editPosition m.lastSent text

/-- The editor's text is now `text`. -/
def textChanged (m : ResultModel) (text : String) : ResultModel :=
  let changed := { m with currentText := text }
  match m.editPosition text with
  | some pos => changed.invalidate pos
  | none => changed

-- ---------------------------------------------------------------------------
-- The stream
-- ---------------------------------------------------------------------------

/-- A sequence begins: its results go to the live set if that has no fragments,
else to a new shadow set. -/
def sequenceStarted (m : ResultModel) : ResultModel :=
  let text := m.inFlightText.getD m.lastSent
  let fresh : PassResults :=
    { sourceText := text, invalidAfter := Text.editPosition text m.currentText }
  if m.live.fragments.isEmpty then { m with live := fresh, shadow := none, phase := .replaying }
  else { m with shadow := some fresh, phase := .replaying }

/-- Puts the shadow set in the place of the live one, keeping of the old notices
and proof states those at the places that `keep` accepts. -/
def promote (m : ResultModel) (keep : PassResults → Position → Bool) : ResultModel :=
  match m.shadow with
  | some shadow => { m with live := shadow.carryForward m.live (keep shadow), shadow := none }
  | none => m

/-- A fragment that starts at `start` is checked afresh: the shadow set becomes
the live one, with what was known about the part before. -/
def leaveReplay (m : ResultModel) (start : Position) : ResultModel :=
  if m.phase = .checking then m
  else ({ m with phase := .checking }).promote fun _ pos => pos < start

/-- The sequence is over: the shadow set becomes the live one, with what was known
about the part behind it. -/
def sequenceFinished (m : ResultModel) : ResultModel :=
  let m := m.promote fun shadow pos => PassResults.endOf shadow.fragments ≤ pos
  { m with
    live := m.live.prune
    phase := .idle
    inFlightText := m.queuedText
    queuedText := none }

/-- A fragment starts; without a range nothing is known about it. -/
def fragmentStarted (m : ResultModel) (range : Option Range) : ResultModel :=
  match range with
  | some range =>
    let m := m.leaveReplay range.start
    { m with live := m.live.addFragment { range, ok := none } }
  | none => m

/-- A fragment got a verdict: the open one, or, in a replay, one that was not
announced. -/
def verdict (m : ResultModel) (range : Option Range) (ok lax : Bool) (digest : Option String) :
    ResultModel :=
  if m.phase ≠ .replaying ∧ m.active.hasOpenFragment then
    m.updateActive fun r => r.closeFragment ok lax digest
  else
    match range with
    | some range => m.updateActive fun r => r.addFragment { range, ok := some ok, lax, digest }
    | none => m

def progress (m : ResultModel) (p : Progress) : ResultModel :=
  match p.stage with
  | .started => m.sequenceStarted
  | .fragmentStarted => m.fragmentStarted p.range
  | .fragmentOk => m.verdict p.range true false p.digest
  | .fragmentLaxOk => m.verdict p.range true true p.digest
  | .fragmentFailed => m.verdict p.range false false none
  | .finished => m.sequenceFinished
  | .other => m

/-- A notice that belongs to an ordinary query. -/
def addNotice (m : ResultModel) (n : Notice) : ResultModel :=
  m.updateActive fun r => { r with notices := r.notices ++ [n] }

/-- A message of the stream; proof states count only inside a sequence. -/
def fold (m : ResultModel) : StreamMessage → ResultModel
  | .progress p => m.progress p
  | .proofState s =>
    if m.phase = .idle then m
    else m.updateActive fun r => { r with proofStates := r.proofStates ++ [s] }
  | .diagnostics errors =>
    m.updateActive fun r =>
      { r with diagnostics := r.diagnostics ++ errors.map fun e => e.toDiagnostic m.document }
  | .notice n => m.addNotice n

/-- The verifier is gone, and nothing more will come for its sequence. -/
def channelExited (m : ResultModel) : ResultModel :=
  let m := if m.phase = .idle then m else m.sequenceFinished
  { m with inFlightText := none, queuedText := none }

/-- What is known about the document. -/
def diagnostics (m : ResultModel) : List Diagnostic := m.live.allDiagnostics m.document

-- ---------------------------------------------------------------------------
-- Runs
-- ---------------------------------------------------------------------------

/-- What can happen to a model. -/
inductive Event where
  | requestIssued (text : String)
  | textChanged (text : String)
  | invalidate (pos : Position)
  | fold (message : StreamMessage)
  | notice (n : Notice)
  | channelExited
deriving DecidableEq, Repr

def step (m : ResultModel) : Event → ResultModel
  | .requestIssued text => m.requestIssued text
  | .textChanged text => m.textChanged text
  | .invalidate pos => m.invalidate pos
  | .fold message => m.fold message
  | .notice n => m.addNotice n
  | .channelExited => m.channelExited

def run (m : ResultModel) (events : List Event) : ResultModel := events.foldl step m

end ResultModel

end VerifierClient
