import VerifierClient.Result.Model

/-!
# Merged results

A document has a strict verifier and possibly a lax one, which is faster. What is
published joins their results: the strict ones, and of the lax ones those from
the place on to which the strict verifier has come.
-/

namespace VerifierClient

/-- The strict diagnostics, and the lax ones behind the verified part, lowered to
warnings. -/
def mergedDiagnostics (strict : ResultModel) (lax : Option ResultModel) : List Diagnostic :=
  match lax with
  | none => strict.diagnostics
  | some lax =>
    strict.diagnostics ++
      (lax.diagnostics.filter fun d => strict.live.verifiedTo ≤ d.range.start).map
        Diagnostic.downgraded

/-- How a fragment of the lax verifier is shown; one without a verdict is not. -/
def Fragment.lightStatus? (f : Fragment) : Option FragmentStatus :=
  match f.ok with
  | some true => some ⟨f.range, .lightOk⟩
  | some false => some ⟨f.range, .lightFailed⟩
  | none => none

/-- The status of the lax fragments that are current and lie behind the verified
part. -/
def lightStatus (strict lax : ResultModel) : List FragmentStatus :=
  (lax.live.fragments.filter fun f =>
    !f.stale && strict.live.verifiedTo ≤ f.range.start).filterMap Fragment.lightStatus?

/-- The part that is waiting to be checked, up to `startedTo`. -/
def startedStatus (strict : ResultModel) (startedTo : Option Position) : List FragmentStatus :=
  match startedTo with
  | some stop =>
    if strict.live.coveredTo < stop then [⟨⟨strict.live.coveredTo, stop⟩, .started⟩] else []
  | none => []

/-- The status of every part of the document, in the order of the text. -/
def mergedStatus (strict : ResultModel) (lax : Option ResultModel) (startedTo : Option Position) :
    List FragmentStatus :=
  let fragments := strict.live.fragments.map fun f => FragmentStatus.mk f.range f.statusKind
  let light := match lax with
    | some lax => lightStatus strict lax
    | none => []
  (fragments ++ light ++ startedStatus strict startedTo).mergeSort fun a b => a.range.le b.range

end VerifierClient
