import VerifierClient.Json.Record
import VerifierClient.Position

/-!
# Diagnostics

What is shown to the user about a document: a message of some severity at a
range, with the verifier's error number and the other places it mentions.

* `Diagnostic.toJson`, `Diagnostic.ofJson?` — the published form;
* `Diagnostic.display` — the form printed on a terminal.
-/

namespace VerifierClient

inductive Severity where
  | error
  | warning
  | information
  | hint
deriving DecidableEq, Repr, Inhabited

namespace Severity

/-- The word shown to the user. -/
def label : Severity → String
  | error => "error"
  | warning => "warning"
  | information => "info"
  | hint => "hint"

/-- The word used in published data. -/
def name : Severity → String
  | error => "error"
  | warning => "warning"
  | information => "information"
  | hint => "hint"

/-- The number editors use. -/
def number : Severity → Nat
  | error => 1
  | warning => 2
  | information => 3
  | hint => 4

/-- The severity of a message level, for levels that describe a diagnostic. -/
def ofLevel? : String → Option Severity
  | "error" => some error
  | "warning" => some warning
  | "info" => some information
  | _ => none

def ofName? : String → Option Severity
  | "error" => some error
  | "warning" => some warning
  | "information" => some information
  | "hint" => some hint
  | _ => none

def isError : Severity → Bool
  | error => true
  | _ => false

end Severity

/-- Another place that a diagnostic mentions. -/
structure RelatedLocation where
  file : String
  range : Range
deriving DecidableEq, Repr, Inhabited

structure Diagnostic where
  severity : Severity
  message : String
  range : Range
  code : Option Int := none
  source : String
  related : List RelatedLocation := []
deriving DecidableEq, Repr, Inhabited

namespace Diagnostic

/-- An error becomes a warning, everything else stays. -/
def downgraded (d : Diagnostic) : Diagnostic :=
  if d.severity.isError then { d with severity := .warning } else d

theorem range_downgraded (d : Diagnostic) : d.downgraded.range = d.range := by
  unfold downgraded
  split <;> rfl

/-- A coordinate as it is shown: counted from one, in 32 bits. -/
def shown (coordinate : Nat) : Nat := (coordinate + 1) % coordinateLimit

/-- One line for a terminal. -/
def display (d : Diagnostic) (path : String) : String :=
  let code := match d.code with
    | none => ""
    | some n => s!" ({n})"
  s!"{path}:{shown d.range.start.line}:{shown d.range.start.character}: " ++
    s!"{d.severity.label}{code}: {d.message}"

end Diagnostic

-- ---------------------------------------------------------------------------
-- Published form
-- ---------------------------------------------------------------------------

namespace Position

def toJson (p : Position) : Json :=
  .ofMembers [("line", .nat p.line), ("character", .nat p.character)]

def ofJson? (j : Json) : Option Position :=
  match j.fields? ["line", "character"] with
  | some [line, character] => do
    let line ← Json.required Json.asNat32? line
    let character ← Json.required Json.asNat32? character
    some ⟨line, character⟩
  | _ => none

end Position

namespace Range

def toJson (r : Range) : Json :=
  .ofMembers [("start", r.start.toJson), ("end", r.stop.toJson)]

def ofJson? (j : Json) : Option Range :=
  match j.fields? ["start", "end"] with
  | some [start, stop] => do
    let start ← Json.required Position.ofJson? start
    let stop ← Json.required Position.ofJson? stop
    some ⟨start, stop⟩
  | _ => none

end Range

namespace RelatedLocation

def toJson (r : RelatedLocation) : Json :=
  .ofMembers [("file", .str r.file), ("range", r.range.toJson)]

def ofJson? (j : Json) : Option RelatedLocation :=
  match j.fields? ["file", "range"] with
  | some [file, range] => do
    let file ← Json.required Json.asStr? file
    let range ← Json.required Range.ofJson? range
    some ⟨file, range⟩
  | _ => none

end RelatedLocation

namespace Diagnostic

def toJson (d : Diagnostic) : Json :=
  .ofMembers
    [("severity", .str d.severity.name), ("message", .str d.message), ("range", d.range.toJson),
     ("code", match d.code with
       | none => .null
       | some n => .int n),
     ("source", .str d.source), ("related", .arr (d.related.map RelatedLocation.toJson))]

def ofJson? (j : Json) : Option Diagnostic :=
  match j.fields? ["severity", "message", "range", "code", "source", "related"] with
  | some [severity, message, range, code, source, related] => do
    let severity ← Json.required (fun j => j.name?.bind Severity.ofName?) severity
    let message ← Json.required Json.asStr? message
    let range ← Json.required Range.ofJson? range
    let code ← Json.optional Json.asInt64? code
    let source ← Json.required Json.asStr? source
    let related ← Json.required (Json.asList? RelatedLocation.ofJson?) related
    some { severity, message, range, code, source, related }
  | _ => none

end Diagnostic

end VerifierClient
