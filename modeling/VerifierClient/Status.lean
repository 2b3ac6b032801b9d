import VerifierClient.Position

/-!
# Verification status

The state of each checked stretch of a document, published beside the
diagnostics.
-/

namespace VerifierClient

inductive StatusKind where
  /-- verified by the strict verifier -/
  | ok
  /-- accepted by the strict verifier with proof obligations admitted -/
  | laxOk
  /-- accepted by the lax verifier only -/
  | lightOk
  /-- being checked -/
  | inProgress
  /-- rejected by the strict verifier -/
  | failed
  /-- rejected by the lax verifier -/
  | lightFailed
  /-- waiting to be checked -/
  | started
  /-- checked, but edited since -/
  | stale
deriving DecidableEq, Repr, Inhabited

namespace StatusKind

def label : StatusKind → String
  | ok => "ok"
  | laxOk => "lax-ok"
  | lightOk => "light-ok"
  | inProgress => "in-progress"
  | failed => "failed"
  | lightFailed => "light-failed"
  | started => "started"
  | stale => "stale"

def ofLabel? : String → Option StatusKind
  | "ok" => some ok
  | "lax-ok" => some laxOk
  | "light-ok" => some lightOk
  | "in-progress" => some inProgress
  | "failed" => some failed
  | "light-failed" => some lightFailed
  | "started" => some started
  | "stale" => some stale
  | _ => none

def isFailure : StatusKind → Bool
  | failed => true
  | lightFailed => true
  | _ => false

end StatusKind

/-- The state of one stretch of a document. -/
structure FragmentStatus where
  range : Range
  kind : StatusKind
deriving DecidableEq, Repr, Inhabited

end VerifierClient
