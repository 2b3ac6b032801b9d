import VerifierClient.Diagnostic
import VerifierClient.Text.Blank
import VerifierClient.Wire.Handshake
import VerifierClient.Wire.Incoming
import VerifierClient.Wire.ProofState

/-!
# The stream of a full-buffer query

What a session folds into its results: progress through the buffer, proof
states, lists of errors, and messages outside of those lists. Lines that carry
nothing of the kind yield no stream message.

* `StreamMessage.ofIncoming?` — the stream message of a line;
* `IdeError.toDiagnostic`, `Notice.toDiagnostic` — what the user is shown.
-/

namespace VerifierClient

/-- Where diagnostics come from. -/
def diagnosticSource : String := "verifier"

-- ---------------------------------------------------------------------------
-- Progress
-- ---------------------------------------------------------------------------

/-- The steps of checking a buffer; unknown ones are `other`. -/
inductive Stage where
  | started
  | fragmentStarted
  | fragmentOk
  | fragmentLaxOk
  | fragmentFailed
  | finished
  | other
deriving DecidableEq, Repr, Inhabited

namespace Stage

/-- The short name. -/
def name : Stage → String
  | started => "started"
  | fragmentStarted => "fragment-started"
  | fragmentOk => "fragment-ok"
  | fragmentLaxOk => "fragment-lax-ok"
  | fragmentFailed => "fragment-failed"
  | finished => "finished"
  | other => "other"

/-- A stage by its short name or by its full one. -/
def ofName : String → Stage
  | "full-buffer-started" => started
  | "started" => started
  | "full-buffer-fragment-started" => fragmentStarted
  | "fragment-started" => fragmentStarted
  | "full-buffer-fragment-ok" => fragmentOk
  | "fragment-ok" => fragmentOk
  | "full-buffer-fragment-lax-ok" => fragmentLaxOk
  | "fragment-lax-ok" => fragmentLaxOk
  | "full-buffer-fragment-failed" => fragmentFailed
  | "fragment-failed" => fragmentFailed
  | "full-buffer-finished" => finished
  | "finished" => finished
  | _ => other

end Stage

/-- A fragment of the buffer with a digest of its code. -/
structure CodeFragment where
  digest : String
  range : ExternalRange
deriving DecidableEq, Repr, Inhabited

def CodeFragment.ofJson? (j : Json) : Option CodeFragment :=
  match j.fields? ["code-digest", "range"] with
  | some [digest, range] => do
    let digest ← Json.required Json.asStr? digest
    let range ← Json.required ExternalRange.ofJson? range
    some ⟨digest, range⟩
  | _ => none

structure Progress where
  stage : Stage
  ranges : Option ExternalRange := none
  fragment : Option CodeFragment := none
deriving DecidableEq, Repr, Inhabited

namespace Progress

def ofJson? (j : Json) : Option Progress :=
  match j.fields? ["stage", "ranges", "code-fragment"] with
  | some [stage, ranges, fragment] => do
    let stage ← Json.required (fun j => j.name?.map Stage.ofName) stage
    let ranges ← Json.optional ExternalRange.ofJson? ranges
    let fragment ← Json.optional CodeFragment.ofJson? fragment
    some ⟨stage, ranges, fragment⟩
  | _ => none

/-- The editor's range that the progress is about. -/
def range (p : Progress) : Option Range :=
  (p.ranges <|> p.fragment.map CodeFragment.range).map ExternalRange.toEditor

def digest (p : Progress) : Option String := p.fragment.map CodeFragment.digest

end Progress

-- ---------------------------------------------------------------------------
-- Error lists
-- ---------------------------------------------------------------------------

/-- An entry of the verifier's list of errors. -/
structure IdeError where
  level : String
  number : Option Int := none
  message : String
  ranges : List ExternalRange := []
deriving DecidableEq, Repr, Inhabited

namespace IdeError

def ofJson? (j : Json) : Option IdeError :=
  match j.fields? ["level", "number", "message", "ranges"] with
  | some [level, number, message, ranges] => do
    let level ← Json.required Json.asStr? level
    let number ← Json.optional Json.asInt64? number
    let message ← Json.required Json.asStr? message
    let ranges ← Json.orDefault [] (Json.asList? ExternalRange.ofJson?) ranges
    some { level, number, message, ranges }
  | _ => none

def related (ranges : List ExternalRange) : List RelatedLocation :=
  ranges.map fun r => ⟨r.fname, r.toEditor⟩

/-- The first range in the document under check is where the error is shown, the
others are related places. An error with no range in the document is shown at
its start. -/
def toDiagnostic (e : IdeError) (document : Option String) : Diagnostic :=
  let elsewhere := fun (r : ExternalRange) => !isSelfReference r.fname document
  let before := e.ranges.takeWhile elsewhere
  let rest := e.ranges.dropWhile elsewhere
  let range := match rest with
    | r :: _ => r.toEditor
    | [] => .zero
  { severity := (Severity.ofLevel? e.level).getD .error
    message := Text.trim e.message
    range
    code := e.number
    source := diagnosticSource
    related := related (before ++ rest.drop 1) }

end IdeError

-- ---------------------------------------------------------------------------
-- Messages outside of the lists
-- ---------------------------------------------------------------------------

/-- A message that is not part of a response's list of errors. -/
structure Notice where
  severity : Severity
  message : String
  range : Option ExternalRange := none
deriving DecidableEq, Repr, Inhabited

namespace Notice

/-- A text is the message itself, an error gives its message and its first range,
anything else is shown as it was written. -/
def ofContents (severity : Severity) (contents : Json) : Notice :=
  match contents with
  | .str message => ⟨severity, message, none⟩
  | contents =>
    match IdeError.ofJson? contents with
    | some e => ⟨severity, e.message, e.ranges.head?⟩
    | none => ⟨severity, contents.text, none⟩

/-- A notice is shown at its range if that lies in the document, else at its start. -/
def toDiagnostic (n : Notice) (document : Option String) : Diagnostic :=
  let range := match n.range with
    | some r => if isSelfReference r.fname document then r.toEditor else .zero
    | none => .zero
  { severity := n.severity, message := Text.trim n.message, range, source := diagnosticSource }

/-- Where the notice stands among the fragments. -/
def position (n : Notice) : Position :=
  match n.range with
  | some r => r.beg.toEditor
  | none => .zero

end Notice

-- ---------------------------------------------------------------------------
-- Stream messages
-- ---------------------------------------------------------------------------

inductive StreamMessage where
  | progress (p : Progress)
  | proofState (s : ProofState)
  | diagnostics (errors : List IdeError)
  | notice (n : Notice)
deriving DecidableEq, Repr, Inhabited

namespace StreamMessage

/-- The stream message of a response: a list of errors, or the text of a failure. -/
def ofResponse? (status : ResponseStatus) (response : Json) : Option StreamMessage :=
  match response with
  | .arr _ =>
    match Json.asList? IdeError.ofJson? response with
    | some (e :: rest) => some (.diagnostics (e :: rest))
    | _ => none
  | .str message => if status = .success then none else some (.notice ⟨.error, message, none⟩)
  | _ => none

/-- The stream message of a message. -/
def ofMessage? (level : MessageLevel) (contents : Json) : Option StreamMessage :=
  match level with
  | .progress => (Progress.ofJson? contents).map progress
  | .proofState => (ProofState.ofJson? contents).map proofState
  | .error => some (.notice (.ofContents .error contents))
  | .warning => some (.notice (.ofContents .warning contents))
  | .info => some (.notice (.ofContents .information contents))
  | .other => none

def ofIncoming? : Incoming → Option StreamMessage
  | .protocolInfo _ _ => none
  | .response _ status response => ofResponse? status response
  | .message _ level contents => ofMessage? level contents

/-- Whether the message ends its sequence. -/
def isFinished : StreamMessage → Bool
  | .progress p => p.stage == .finished
  | _ => false

end StreamMessage

end VerifierClient
