import VerifierClient.Wire.Range

/-!
# Answers to queries

What the verifier answers about a symbol, and its list of completions.
-/

namespace VerifierClient

/-- What is known about a symbol. -/
structure SymbolInfo where
  name : String := ""
  type : Option String := none
  documentation : Option String := none
  definedAt : Option ExternalRange := none
deriving DecidableEq, Repr, Inhabited

def SymbolInfo.ofJson? (j : Json) : Option SymbolInfo :=
  match j.fields? ["name", "type", "documentation", "defined-at"] with
  | some [name, type, documentation, definedAt] => do
    let name ← Json.orDefault "" Json.asStr? name
    let type ← Json.optional Json.asStr? type
    let documentation ← Json.optional Json.asStr? documentation
    let definedAt ← Json.optional ExternalRange.ofJson? definedAt
    some { name, type, documentation, definedAt }
  | _ => none

/-- A way to complete an identifier. -/
structure Completion where
  label : String
  annotation : String
deriving DecidableEq, Repr, Inhabited

namespace Completion

/-- A candidate: the length of the match, an annotation and the identifier. -/
def ofJson? : Json → Option Completion
  | .arr [length, annotation, label] => do
    let _ ← length.asNat64?
    let annotation ← annotation.asStr?
    let label ← label.asStr?
    some ⟨label, annotation⟩
  | _ => none

/-- The candidates of a response, none if it is not a list of candidates. -/
def ofResponse (response : Json) : List Completion :=
  (Json.asList? ofJson? response).getD []

end Completion

end VerifierClient
