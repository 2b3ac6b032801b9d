import VerifierClient.Diagnostic
import VerifierClient.Status
import VerifierClient.Table
import VerifierClient.Uri

/-!
# Published results

The diagnostics and the status that each document published last, and a snapshot
of all diagnostics for display.
-/

namespace VerifierClient

-- ---------------------------------------------------------------------------
-- Snapshots
-- ---------------------------------------------------------------------------

/-- All published diagnostics, document by document. -/
structure Snapshot where
  files : List (Uri × List Diagnostic)
deriving DecidableEq, Repr, Inhabited

namespace Snapshot

def isEmpty (s : Snapshot) : Bool := s.files.isEmpty

def all (s : Snapshot) : List Diagnostic := s.files.flatMap Prod.snd

def countOf (s : Snapshot) (severity : Severity) : Nat :=
  s.all.countP fun d => d.severity = severity

def errorCount (s : Snapshot) : Nat := s.countOf .error

def warningCount (s : Snapshot) : Nat := s.countOf .warning

def totalCount (s : Snapshot) : Nat := s.all.length

/-- A short summary, empty when there is nothing to show. -/
def summary (s : Snapshot) : String :=
  if s.isEmpty then "" else s!"E:{s.errorCount} W:{s.warningCount}"

end Snapshot

-- ---------------------------------------------------------------------------
-- The store
-- ---------------------------------------------------------------------------

structure Store where
  diagnosticsOf : Table Uri (List Diagnostic) := []
  statusOf : Table Uri (List FragmentStatus) := []
deriving Repr, Inhabited

namespace Store

/-- The diagnostics of a document are now `items`. -/
def updateDiagnostics (s : Store) (uri : Uri) (items : List Diagnostic) : Store :=
  { s with
    diagnosticsOf :=
      if items.isEmpty then s.diagnosticsOf.erase uri else s.diagnosticsOf.insert uri items }

/-- The status of a document is now `fragments`. -/
def updateStatus (s : Store) (uri : Uri) (fragments : List FragmentStatus) : Store :=
  { s with
    statusOf := if fragments.isEmpty then s.statusOf.erase uri else s.statusOf.insert uri fragments }

def remove (s : Store) (uri : Uri) : Store :=
  ⟨s.diagnosticsOf.erase uri, s.statusOf.erase uri⟩

def diagnostics (s : Store) (uri : Uri) : List Diagnostic := (s.diagnosticsOf.get? uri).getD []

def status (s : Store) (uri : Uri) : List FragmentStatus := (s.statusOf.get? uri).getD []

def hasErrors (items : List Diagnostic) : Bool := items.any fun d => d.severity.isError

/-- Documents with errors come first, then documents come by their URIs. -/
def fileLe (a b : Uri × List Diagnostic) : Bool :=
  match hasErrors a.2, hasErrors b.2 with
  | true, false => true
  | false, true => false
  | _, _ => a.1.text ≤ b.1.text

def snapshot (s : Store) : Snapshot := ⟨s.diagnosticsOf.mergeSort fileLe⟩

end Store

end VerifierClient
