import VerifierClient.Status
import VerifierClient.Wire.Stream

/-!
# The results of one pass

A verifier checks a document fragment by fragment. The results of a pass are the
fragments it has reached, the diagnostics, proof states and notices it reported,
the text it was given, and the earliest place at which that text was edited
since. A fragment is stale when it reaches past that place.
-/

namespace VerifierClient

/-- A checked piece of the document. -/
structure Fragment where
  range : Range
  /-- the verdict; none while the verifier is at work on the fragment -/
  ok : Option Bool
  /-- whether proof obligations were admitted -/
  lax : Bool := false
  /-- whether the text was edited before the end of the fragment -/
  stale : Bool := false
  digest : Option String := none
deriving DecidableEq, Repr, Inhabited

/-- How a fragment of the strict verifier is shown. -/
def Fragment.statusKind (f : Fragment) : StatusKind :=
  if f.stale then .stale
  else
    match f.ok with
    | none => .inProgress
    | some true => if f.lax then .laxOk else .ok
    | some false => .failed

/-- What one pass reported about a document. -/
structure PassResults where
  fragments : List Fragment := []
  diagnostics : List Diagnostic := []
  proofStates : List ProofState := []
  notices : List Notice := []
  /-- the earliest edit since the text was sent -/
  invalidAfter : Option Position := none
  /-- the text that was sent -/
  sourceText : String
deriving DecidableEq, Repr, Inhabited

namespace PassResults

/-- Whether a range reaches past the earliest edit. -/
def isPastEdit (r : PassResults) (range : Range) : Bool :=
  match r.invalidAfter with
  | some pos => range.extendsPast pos
  | none => false

/-- Adds a fragment, which is stale from the start if it reaches past an edit. -/
def addFragment (r : PassResults) (f : Fragment) : PassResults :=
  { r with fragments := r.fragments ++ [{ f with stale := f.stale || r.isPastEdit f.range }] }

/-- The text was edited at `pos`. -/
def invalidate (r : PassResults) (pos : Position) : PassResults :=
  { r with
    fragments := r.fragments.map fun f => { f with stale := f.stale || f.range.extendsPast pos }
    invalidAfter := some (match r.invalidAfter with
      | some earlier => earlier.earlier pos
      | none => pos) }

/-- The end of the last of some fragments. -/
def endOf (fragments : List Fragment) : Position :=
  match fragments.getLast? with
  | some f => f.range.stop
  | none => .zero

/-- The end of the leading fragments that have a verdict and are not stale. -/
def verifiedTo (r : PassResults) : Position :=
  endOf (r.fragments.takeWhile fun f => f.ok.isSome && !f.stale)

/-- The end of the leading fragments that are not stale. -/
def coveredTo (r : PassResults) : Position :=
  endOf (r.fragments.takeWhile fun f => !f.stale)

def proofStatesAt (r : PassResults) (line : Nat) : List ProofState :=
  r.proofStates.filter fun s => s.line == some line

/-- The diagnostics, then the notices as diagnostics. -/
def allDiagnostics (r : PassResults) (document : Option String) : List Diagnostic :=
  r.diagnostics ++ r.notices.map fun n => n.toDiagnostic document

/-- Whether the last fragment has no verdict yet. -/
def hasOpenFragment (r : PassResults) : Bool :=
  match r.fragments.getLast? with
  | some f => f.ok.isNone
  | none => false

/-- Gives the last fragment its verdict. -/
def closeFragment (r : PassResults) (ok lax : Bool) (digest : Option String) : PassResults :=
  match r.fragments.getLast? with
  | some f =>
    { r with
      fragments := r.fragments.dropLast ++
        [{ f with ok := some ok, lax, digest := digest <|> f.digest }] }
  | none => r

/-- Drops a last fragment that got no verdict. -/
def prune (r : PassResults) : PassResults :=
  if r.hasOpenFragment then { r with fragments := r.fragments.dropLast } else r

/-- Puts the notices and proof states of an earlier pass in front, those at the
places that `keep` accepts; a proof state without a place is kept. -/
def carryForward (r old : PassResults) (keep : Position → Bool) : PassResults :=
  { r with
    notices := (old.notices.filter fun n => keep n.position) ++ r.notices
    proofStates :=
      (old.proofStates.filter fun s =>
        match s.location with
        | some range => keep range.toEditor.start
        | none => true) ++ r.proofStates }

end PassResults

end VerifierClient
