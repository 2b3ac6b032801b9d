import VerifierClient.Registry

/-!
# What the command line prints

* `Outcome` — what a run of the program leaves behind;
* `Outcome.ofError` — an error with its causes;
* `Outcome.ofResults` — the results of a check.
-/

namespace VerifierClient

structure Outcome where
  exitCode : Nat
  stdout : String := ""
  stderr : String := ""
deriving DecidableEq, Repr, Inhabited

-- ---------------------------------------------------------------------------
-- Errors
-- ---------------------------------------------------------------------------

/-- A text whose lines after the first are indented. -/
def indented (indent text : String) : String := s!"\n{indent}".intercalate (text.splitOn "\n")

/-- The causes behind an error, which are numbered when there are several. -/
def causeLines (causes : List String) : List String :=
  match causes with
  | [cause] => ["    " ++ indented "    " cause]
  | causes => causes.zipIdx.map fun (cause, n) => s!"    {n}: " ++ indented "       " cause

/-- An error with its causes, the outermost first. -/
def errorText (causes : List String) : String :=
  match causes with
  | [] => "Error: \n"
  | [message] => s!"Error: {message}\n"
  | message :: rest =>
    s!"Error: {message}\n\nCaused by:\n" ++ "\n".intercalate (causeLines rest) ++ "\n"

def Outcome.ofError (causes : List String) : Outcome := { exitCode := 1, stderr := errorText causes }

-- ---------------------------------------------------------------------------
-- Results
-- ---------------------------------------------------------------------------

/-- The labels of a status with their numbers, in alphabetical order. -/
def labelCounts (fragments : List FragmentStatus) : List (String × Nat) :=
  let labels := fragments.map fun f => f.kind.label
  (labels.mergeSort.eraseDups).map fun label => (label, labels.count label)

/-- A status in a few words. -/
def statusSummary (fragments : List FragmentStatus) : String :=
  let noun := if fragments.length = 1 then "fragment" else "fragments"
  let parts := (labelCounts fragments).map fun (label, count) => s!"{count} {label}"
  if parts.isEmpty then s!"0 {noun}"
  else s!"{fragments.length} {noun}: " ++ ", ".intercalate parts

/-- Whether results mean that a check has failed. -/
def hasFailures (diagnostics : List Diagnostic) (fragments : List FragmentStatus) : Bool :=
  (diagnostics.any fun d => d.severity.isError) || fragments.any fun f => f.kind.isFailure

/-- The results of a document in the registry, printed for the file that it is. -/
def Outcome.ofResults (r : Registry) (uri : Uri) (file : String) : Outcome :=
  let diagnostics := r.store.diagnostics uri
  let fragments := r.store.status uri
  let snapshot := r.snapshot
  let counts := if snapshot.isEmpty then "no diagnostics" else snapshot.summary
  { exitCode := if hasFailures diagnostics fragments then 1 else 0
    stdout := String.join (diagnostics.map fun d => d.display file ++ "\n") ++
      s!"{file}: {statusSummary fragments} ({counts})\n" }

end VerifierClient
