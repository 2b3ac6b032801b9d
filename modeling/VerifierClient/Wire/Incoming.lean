import VerifierClient.Json.Parser
import VerifierClient.Json.Record

/-!
# Lines from the verifier

Every line is a message of one of three kinds: the handshake, a response to a
query, or a message about one. A line that is none of these is dropped, so
reading one is a partial function.
-/

namespace VerifierClient

inductive ResponseStatus where
  | success
  | failure
  | protocolViolation
deriving DecidableEq, Repr, Inhabited

namespace ResponseStatus

def name : ResponseStatus → String
  | success => "success"
  | failure => "failure"
  | protocolViolation => "protocol-violation"

def ofName? : String → Option ResponseStatus
  | "success" => some success
  | "failure" => some failure
  | "protocol-violation" => some protocolViolation
  | _ => none

end ResponseStatus

/-- What a message is about; unknown levels are `other`. -/
inductive MessageLevel where
  | error
  | warning
  | info
  | progress
  | proofState
  | other
deriving DecidableEq, Repr, Inhabited

namespace MessageLevel

def name : MessageLevel → String
  | error => "error"
  | warning => "warning"
  | info => "info"
  | progress => "progress"
  | proofState => "proof-state"
  | other => "other"

def ofName : String → MessageLevel
  | "error" => error
  | "warning" => warning
  | "info" => info
  | "progress" => progress
  | "proof-state" => proofState
  | _ => other

end MessageLevel

inductive Incoming where
  | protocolInfo (version : Nat) (features : List String)
  | response (queryId : String) (status : ResponseStatus) (response : Json)
  | message (queryId : String) (level : MessageLevel) (contents : Json)
deriving Repr, Inhabited

namespace Incoming

/-- The handshake's fields. -/
def protocolInfo? (body : Json) : Option Incoming :=
  match body.fields? ["version", "features"] with
  | some [version, features] => do
    let version ← Json.required Json.asNat32? version
    let features ← Json.orDefault [] (Json.asList? Json.asStr?) features
    some (.protocolInfo version features)
  | _ => none

/-- The fields of a response. -/
def response? (body : Json) : Option Incoming :=
  match body.fields? ["query-id", "status", "response"] with
  | some [queryId, status, payload] => do
    let queryId ← Json.required Json.asStr? queryId
    let status ← Json.required (fun j => j.headName?.bind ResponseStatus.ofName?) status
    some (.response queryId status ((payload.getD .null).canonical))
  | _ => none

/-- The fields of a message. -/
def message? (body : Json) : Option Incoming :=
  match body.fields? ["query-id", "level", "contents"] with
  | some [queryId, level, contents] => do
    let queryId ← Json.orDefault "" Json.asStr? queryId
    let level ← Json.required (fun j => j.headName?.map MessageLevel.ofName) level
    some (.message queryId level ((contents.getD .null).canonical))
  | _ => none

/-- A message of the given kind. -/
def ofKind? (kind : String) (body : Json) : Option Incoming :=
  match kind with
  | "protocol-info" => protocolInfo? body
  | "response" => response? body
  | "message" => message? body
  | _ => none

/-- A document as a message: an object with its kind among the members, or an
array with its kind in front. -/
def ofJson? : Json → Option Incoming
  | .obj members =>
    match Json.valuesOf "kind" members with
    | [.str kind] => ofKind? kind (.obj (members.filter fun member => member.1 != "kind"))
    | _ => none
  | .arr (.str kind :: rest) => ofKind? kind (.arr rest)
  | _ => none

/-- Reads a line. -/
def parse? (line : String) : Option Incoming := (Json.read? line).bind ofJson?

end Incoming

end VerifierClient
