import VerifierClient.Channel.Link
import VerifierClient.Host.Script

/-!
# Trials

A trial lets a channel talk with a scripted verifier until the verifier exits. A
notice `kill-solvers` has the solvers of the verifier killed, and a notice
`dispose` ends the trial.

* `Trial.run` — the log of a trial.
-/

namespace VerifierClient

inductive TrialEvent where
  | channel (event : ChannelEvent)
  | killed (count : Nat)
  | disposed
deriving DecidableEq, Repr, Inhabited

structure Trial where
  link : Link
  verifier : ScriptedVerifier
  /-- how many envelopes the verifier has received -/
  received : Nat := 0
  log : List TrialEvent := []
deriving Inhabited

namespace Trial

/-- What the client does about an event. -/
def react (t : Trial) (event : ChannelEvent) : Trial :=
  let t := { t with log := t.log ++ [.channel event] }
  match event with
  | .notice n =>
    if n.message = "kill-solvers" then
      let (count, verifier) := t.verifier.killSolvers
      { t with verifier, log := t.log ++ [.killed count] }
    else if n.message = "dispose" then
      { t with link := t.link.dispose, log := t.log ++ [.disposed] }
    else t
  | _ => t

/-- What the verifier does reaches the client. -/
def observe (t : Trial) (output : VerifierOutput) : Trial :=
  let link := match output with
    | .line text => t.link.feed (text ++ "\n").toUTF8
    | .exited code => t.link.close code
  let events := link.channel.events.drop t.link.channel.events.length
  events.foldl react { t with link }

/-- The queries that were sent reach the verifier. -/
def deliver (t : Trial) : Trial :=
  let sent := t.link.channel.delivered
  { t with verifier := t.verifier.receive (sent.drop t.received), received := sent.length }

/-- Lets both sides take turns, at most `rounds` times. -/
def runWithin (t : Trial) : Nat → Trial
  | 0 => t
  | rounds + 1 =>
    let t := t.deliver
    match t.verifier.run with
    | ([], verifier) => { t with verifier }
    | (outputs, verifier) => (outputs.foldl observe { t with verifier }).runWithin rounds

/-- Lets both sides take turns as long as something happens. -/
def run (t : Trial) : Trial := t.runWithin (t.verifier.steps.length + 1)

end Trial

end VerifierClient
