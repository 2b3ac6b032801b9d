import VerifierClient.Wire.Range

/-!
# Proof states

The goals that are open at some point of a proof, as the verifier dumps them
while it runs a tactic.
-/

namespace VerifierClient

structure Hypothesis where
  name : String := ""
  type : String := ""
deriving DecidableEq, Repr, Inhabited

structure GoalTarget where
  witness : String := ""
  type : String := ""
  label : String := ""
deriving DecidableEq, Repr, Inhabited

structure Goal where
  hyps : List Hypothesis := []
  goal : GoalTarget := {}
deriving DecidableEq, Repr, Inhabited

structure ProofState where
  label : String := ""
  location : Option ExternalRange := none
  goals : List Goal := []
  smtGoals : List Goal := []
deriving DecidableEq, Repr, Inhabited

namespace Hypothesis

def toJson (h : Hypothesis) : Json :=
  .ofMembers [("name", .str h.name), ("type", .str h.type)]

def ofJson? (j : Json) : Option Hypothesis :=
  match j.fields? ["name", "type"] with
  | some [name, type] => do
    let name ← Json.orDefault "" Json.asStr? name
    let type ← Json.orDefault "" Json.asStr? type
    some { name, type }
  | _ => none

end Hypothesis

namespace GoalTarget

def toJson (g : GoalTarget) : Json :=
  .ofMembers [("witness", .str g.witness), ("type", .str g.type), ("label", .str g.label)]

def ofJson? (j : Json) : Option GoalTarget :=
  match j.fields? ["witness", "type", "label"] with
  | some [witness, type, label] => do
    let witness ← Json.orDefault "" Json.asStr? witness
    let type ← Json.orDefault "" Json.asStr? type
    let label ← Json.orDefault "" Json.asStr? label
    some { witness, type, label }
  | _ => none

end GoalTarget

namespace Goal

def toJson (g : Goal) : Json :=
  .ofMembers [("hyps", .arr (g.hyps.map Hypothesis.toJson)), ("goal", g.goal.toJson)]

def ofJson? (j : Json) : Option Goal :=
  match j.fields? ["hyps", "goal"] with
  | some [hyps, goal] => do
    let hyps ← Json.orDefault [] (Json.asList? Hypothesis.ofJson?) hyps
    let goal ← Json.orDefault {} GoalTarget.ofJson? goal
    some { hyps, goal }
  | _ => none

end Goal

namespace ProofState

def toJson (s : ProofState) : Json :=
  .ofMembers
    [("label", .str s.label),
     ("location", match s.location with
       | none => .null
       | some range => range.toJson),
     ("goals", .arr (s.goals.map Goal.toJson)), ("smt-goals", .arr (s.smtGoals.map Goal.toJson))]

def ofJson? (j : Json) : Option ProofState :=
  match j.fields? ["label", "location", "goals", "smt-goals"] with
  | some [label, location, goals, smtGoals] => do
    let label ← Json.orDefault "" Json.asStr? label
    let location ← Json.optional ExternalRange.ofJson? location
    let goals ← Json.orDefault [] (Json.asList? Goal.ofJson?) goals
    let smtGoals ← Json.orDefault [] (Json.asList? Goal.ofJson?) smtGoals
    some { label, location, goals, smtGoals }
  | _ => none

/-- The editor's line that the state belongs to. -/
def line (s : ProofState) : Option Nat := s.location.map fun range => range.toEditor.start.line

end ProofState

end VerifierClient
