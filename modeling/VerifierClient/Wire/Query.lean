import VerifierClient.Wire.QueryId
import VerifierClient.Wire.Range

/-!
# Queries

What the client asks the verifier. A query is a name with arguments; the channel
wraps it with an id into an envelope, which goes out as one line.
-/

namespace VerifierClient

/-- What a full-buffer query asks for. -/
inductive BufferKind where
  | full
  | lax
  | cache
  | reloadDeps
  | verifyToPosition
  | laxToPosition
deriving DecidableEq, Repr, Inhabited

namespace BufferKind

/-- The wire name. -/
def name : BufferKind → String
  | full => "full"
  | lax => "lax"
  | cache => "cache"
  | reloadDeps => "reload-deps"
  | verifyToPosition => "verify-to-position"
  | laxToPosition => "lax-to-position"

def ofName? : String → Option BufferKind
  | "full" => some full
  | "lax" => some lax
  | "cache" => some cache
  | "reload-deps" => some reloadDeps
  | "verify-to-position" => some verifyToPosition
  | "lax-to-position" => some laxToPosition
  | _ => none

end BufferKind

/-- A query that has no id yet. -/
structure Query where
  name : String
  args : Json
deriving Repr, Inhabited

namespace Query

/-- Tells the verifier the contents of the document. -/
def vfsAdd (contents : String) : Query :=
  ⟨"vfs-add", .ofMembers [("filename", .null), ("contents", .str contents)]⟩

/-- Checks `code`, up to `position` if there is one. -/
def fullBuffer (kind : BufferKind) (code : String) (position : Option Position) : Query :=
  let place : ExternalPosition := (position.map Position.toExternal).getD ⟨0, 0⟩
  ⟨"full-buffer", .ofMembers
    [("kind", .str kind.name), ("with-symbols", .bool false), ("code", .str code),
     ("line", .nat place.line), ("column", .nat place.column)]⟩

/-- Gives up the work on what lies after `position`. -/
def cancel (position : Position) : Query :=
  let place := position.toExternal
  ⟨"cancel", .ofMembers [("cancel-line", .nat place.line), ("cancel-column", .nat place.column)]⟩

/-- Asks what is known about the symbol at `position`. -/
def lookup (symbol : String) (symbolRange : Range) (filename : String) (position : Position) :
    Query :=
  let place := position.toExternal
  ⟨"lookup", .ofMembers
    [("context", .str "code"), ("symbol", .str symbol),
     ("requested-info", .arr [.str "type", .str "documentation", .str "defined-at"]),
     ("location", .ofMembers
       [("filename", .str filename), ("line", .nat place.line), ("column", .nat place.column)]),
     ("symbol-range", (symbolRange.toExternal filename).toJson)]⟩

/-- Asks for the identifiers that start with `start`. -/
def autocomplete (start : String) : Query :=
  ⟨"autocomplete", .ofMembers [("partial-symbol", .str start), ("context", .str "code")]⟩

/-- Starts the verifier's solver again. -/
def restartSolver : Query := ⟨"restart-solver", .obj []⟩

end Query

/-- A query with its id. -/
structure Envelope where
  id : QueryId
  query : Query
deriving Repr, Inhabited

namespace Envelope

def toJson (e : Envelope) : Json :=
  .ofMembers
    [("query", .str e.query.name), ("args", e.query.args), ("query-id", .str e.id.text)]

/-- The line that goes to the verifier, without its terminator. -/
def line (e : Envelope) : String := e.toJson.text

end Envelope

end VerifierClient
