import VerifierClient.Cli.Args
import VerifierClient.Cli.Report
import VerifierClient.Config
import VerifierClient.Host.Script

/-!
# Checking a file

A check opens a file in a registry, waits for the strict verifier to finish and
prints what was found.

* `Check.verdict?` — what an event means for a check;
* `Check.run` — the whole program on a host with a scripted verifier.
-/

namespace VerifierClient

namespace Check

-- ---------------------------------------------------------------------------
-- Configuration
-- ---------------------------------------------------------------------------

/-- Where configuration is looked for when the command line names no file. -/
def configPaths (cwd home : String) : List String :=
  [Path.join cwd "proofline.toml", Path.join (Path.join home ".proofline") "config.toml"]

/-- The settings of the session of a check. -/
def sessionSettings (settings : SessionSettings) : SessionSettings :=
  { settings with verifyOnOpen := true, flyCheck := false }

/-- The warning about a configuration file that cannot be used. -/
def configWarning (e : ConfigError) : String := s!"warning: {e.message}; using defaults\n"

/-- The configuration to be used, with a warning. A file that was named has to be
right; another one that is wrong is replaced by defaults. -/
def chooseConfig (named : Bool) : Option (Except ConfigError Config) →
    Except ConfigError (Config × String)
  | none => .ok ({}, "")
  | some (.ok config) => .ok (config, "")
  | some (.error e) => if named then .error e else .ok ({}, configWarning e)

-- ---------------------------------------------------------------------------
-- Waiting
-- ---------------------------------------------------------------------------

/-- How a check ends. -/
inductive Verdict where
  /-- the strict verifier has finished -/
  | finished
  | failed (message : String)
deriving DecidableEq, Repr, Inhabited

/-- The verdict that an event brings, if it brings one. -/
def verdict? (uri : Uri) (event : Uri × SessionEvent) : Option Verdict :=
  match event with
  | (source, .finished .strict) => if source = uri then some .finished else none
  | (_, .alert message) => some (.failed message)
  | _ => none

/-- Reads events up to one that brings a verdict. -/
def awaitWithin (uri : Uri) (r : Registry) : Nat → Registry × Option Verdict
  | 0 => (r, none)
  | budget + 1 =>
    match r.readEvents 1 with
    | (r, [event]) =>
      match verdict? uri event with
      | some verdict => (r, some verdict)
      | none => awaitWithin uri r budget
    | (r, _) => (r, none)

/-- Reads the events that are there, up to one that brings a verdict. -/
def await (uri : Uri) (r : Registry) : Registry × Option Verdict :=
  awaitWithin uri r r.queue.length

/-- What a check prints at its end; there is no verdict when time ran out. -/
def conclude (args : CheckArgs) (uri : Uri) (r : Registry) : Option Verdict → Outcome
  | some .finished => .ofResults r uri args.file
  | some (.failed message) => .ofError [message]
  | none => .ofError [s!"verification did not finish within {args.timeout}s"]

-- ---------------------------------------------------------------------------
-- Scripted verifiers
-- ---------------------------------------------------------------------------

/-- What a verifier does reaches the registry as its first verifier's doing. -/
def observe (r : Registry) : VerifierOutput → Registry
  | .line text => r.onVerifier 0 fun role => .output role (text ++ "\n").toUTF8
  | .exited code => r.onVerifier 0 fun role => .exit role code

/-- The queries that reached the verifier. -/
def sent (r : Registry) : List Envelope :=
  match r.sessions.head? with
  | some s => s.strict.channel.delivered
  | none => []

/-- Lets the verifier act, and the check wait for its end after every action. -/
def observeAll (uri : Uri) (r : Registry) : List VerifierOutput → Registry × Option Verdict
  | [] => (r, none)
  | output :: rest =>
    match await uri (observe r output) with
    | (r, some verdict) => (r, some verdict)
    | (r, none) => observeAll uri r rest

/-- Lets registry and verifier take turns until there is a verdict, at most
`rounds` times; the verifier has received so many queries. -/
def converse (uri : Uri) (r : Registry) (v : ScriptedVerifier) (received : Nat) :
    Nat → Registry × Option Verdict
  | 0 => (r, none)
  | rounds + 1 =>
    let queries := sent r
    match (v.receive (queries.drop received)).run with
    | ([], _) => (r, none)
    | (outputs, v) =>
      match observeAll uri r outputs with
      | (r, some verdict) => (r, some verdict)
      | (r, none) => converse uri r v queries.length rounds

/-- Waits for the verdict on a document that was opened. No verifier is so fast as
to finish in no time. -/
def waitFor (args : CheckArgs) (uri : Uri) (r : Registry) (v : ScriptedVerifier) :
    Registry × Option Verdict :=
  match await uri r with
  | (r, some verdict) => (r, some verdict)
  | (r, none) => if args.timeout = 0 then (r, none) else converse uri r v 0 (v.steps.length + 1)

-- ---------------------------------------------------------------------------
-- The program
-- ---------------------------------------------------------------------------

/-- Reads the configuration on a host. -/
def loadConfig (h : Host) (args : CheckArgs) : Except ConfigError (Config × String) :=
  let load := fun path => Config.ofFile path (h.tree.readText h.cwd path)
  match args.config with
  | some path => chooseConfig true (some (load path))
  | none =>
    let found := (configPaths (Host.pathOf h.cwd) h.home).find? fun path =>
      h.tree.existsAt h.cwd path
    chooseConfig false (found.map load)

/-- Checks a file on a host where all verifiers follow `script`. -/
def check (h : Host) (script : List ScriptStep) (args : CheckArgs) (config : Config) : Outcome :=
  match h.tree.readText h.cwd args.file with
  | .error e => .ofError [s!"reading {args.file}", e.message]
  | .ok text =>
    let registry : Registry :=
      { settings := sessionSettings config.session, cwd := Host.pathOf h.cwd }
    let launcher : Launcher := fun role document =>
      (h.launch config.verifier role document).map fun _ => ()
    match registry.openPath launcher args.file text with
    | (_, .error e) => .ofError e.causes
    | (r, .ok uri) =>
      match h.launch config.verifier .strict uri.toPath with
      | .error e => .ofError e.causes
      | .ok launched =>
        let (r, verdict) := waitFor args uri r { steps := script, launched }
        conclude args uri r verdict

/-- Runs the program with the given arguments. -/
def run (h : Host) (script : List ScriptStep) (arguments : List String) : Outcome :=
  match CheckArgs.parse arguments with
  | .error e => .ofError e.causes
  | .ok args =>
    match loadConfig h args with
    | .error e => .ofError e.causes
    | .ok (config, warning) =>
      let outcome := check h script args config
      { outcome with stderr := warning ++ outcome.stderr }

end Check

end VerifierClient
