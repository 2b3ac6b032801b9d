import VerifierClient.Host.Launch
import VerifierClient.Wire.Query

/-!
# Scripted verifiers

A verifier that follows a script: it waits for queries, writes lines and exits as
the script says. With it a client can be run without a prover.

* `ScriptedVerifier.run` — follows the script as far as it goes;
* `ScriptedVerifier.receive` — queries that reach the verifier;
* `ScriptedVerifier.killSolvers` — what happens to the verifier's children.
-/

namespace VerifierClient

inductive ScriptStep where
  /-- reads queries up to one with this name -/
  | wait (name : String)
  /-- repeats the query that was waited for, as a message -/
  | echo
  /-- writes a line; `$ID` in it is the id of the query that was waited for -/
  | send (line : String)
  /-- tells its arguments and its working directory -/
  | report
  /-- starts child processes -/
  | children (count : Nat)
  /-- waits for the children to end -/
  | reap
  | exit (code : Int)
  /-- is killed by a signal -/
  | die
deriving DecidableEq, Repr, Inhabited

/-- What a verifier does that its client sees. -/
inductive VerifierOutput where
  | line (text : String)
  | exited (code : Option Int)
deriving DecidableEq, Repr, Inhabited

structure ScriptedVerifier where
  /-- the steps that are left -/
  steps : List ScriptStep
  launched : Launched
  /-- queries that were not read yet -/
  input : List Envelope := []
  /-- the query that was waited for -/
  query : Option Envelope := none
  children : Nat := 0
  /-- how many of the children have been killed -/
  killed : Nat := 0
deriving Inhabited

namespace ScriptedVerifier

/-- An exit code is one of so many. -/
def exitCodes : Int := 256

/-- The line of a message to the user. -/
def message (text : String) : String :=
  (Json.obj [("contents", .str text), ("kind", .str "message"), ("level", .str "info")]).text

/-- Replaces every `$ID` in a text. -/
def fillId (id : List Char) : List Char → List Char
  | '$' :: 'I' :: 'D' :: rest => id ++ fillId id rest
  | c :: rest => c :: fillId id rest
  | [] => []

def idOf (v : ScriptedVerifier) : String := (v.query.map fun q => q.id.text).getD ""

def reportText (v : ScriptedVerifier) : String :=
  let arguments := (Json.arr (v.launched.arguments.map Json.str)).text
  s!"args={arguments} cwd={Host.pathOf v.launched.directory}"

/-- Follows the script until it has to wait or is over. Without a further step the
verifier reads its input and does nothing. -/
def follow (v : ScriptedVerifier) : List ScriptStep → List VerifierOutput × ScriptedVerifier
  | [] => ([], { v with steps := [] })
  | step :: rest =>
    let say := fun (v : ScriptedVerifier) (line : String) =>
      let (out, v) := v.follow rest
      (.line line :: out, v)
    match step with
    | .wait name =>
      match v.input.dropWhile fun e => e.query.name ≠ name with
      | [] => ([], { v with steps := step :: rest, input := [] })
      | e :: input => { v with input, query := some e }.follow rest
    | .echo => say v (message ((v.query.map Envelope.line).getD ""))
    | .send line => say v (String.ofList (fillId v.idOf.toList line.toList))
    | .report => say v (message v.reportText)
    | .children count => { v with children := v.children + count }.follow rest
    | .reap =>
      if v.killed = v.children then
        say { v with children := 0, killed := 0 } (message s!"reaped {v.children}")
      else ([], { v with steps := step :: rest })
    | .exit code => ([.exited (some (code % exitCodes))], { v with steps := [] })
    | .die => ([.exited none], { v with steps := [] })

def run (v : ScriptedVerifier) : List VerifierOutput × ScriptedVerifier := v.follow v.steps

def receive (v : ScriptedVerifier) (queries : List Envelope) : ScriptedVerifier :=
  { v with input := v.input ++ queries }

/-- Kills the children; says how many there are. -/
def killSolvers (v : ScriptedVerifier) : Nat × ScriptedVerifier :=
  (v.children, { v with killed := v.children })

end ScriptedVerifier

end VerifierClient
