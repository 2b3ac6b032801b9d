import VerifierClient.Cli.Check

/-!
# The program

The command line on a real machine. The program starts no processes: a verifier
is expected to run already, with its input and its output on the named pipes
`PROGRAM.in` and `PROGRAM.out`, where `PROGRAM` is the command's path.
-/

namespace VerifierClient.Console

/-- What went wrong when a file was opened or read. -/
def fileError : IO.Error → FileError
  | .inappropriateType _ code _ => if code = 21 then .isDirectory else .notDirectory
  | _ => .notFound

def readText (path : String) : IO (Except FileError String) := do
  try
    return FileTree.decodeText (← IO.FS.readBinFile path)
  catch e => return .error (fileError e)

/-- The text of the first of some files that is there, with its path. -/
def readFirst : List String → IO (Option (String × Except FileError String))
  | [] => return none
  | path :: rest => do
    match ← readText path with
    | .error .notFound => readFirst rest
    | .error .notDirectory => readFirst rest
    | text => return some (path, text)

def loadConfig (args : CheckArgs) : IO (Except ConfigError (Config × String)) := do
  match args.config with
  | some path => return Check.chooseConfig true (some (Config.ofFile path (← readText path)))
  | none =>
    let cwd ← IO.currentDir
    let home := (← IO.getEnv "HOME").getD ""
    let found ← readFirst (Check.configPaths cwd.toString home)
    return Check.chooseConfig false (found.map fun (path, text) => Config.ofFile path text)

-- ---------------------------------------------------------------------------
-- Verifiers
-- ---------------------------------------------------------------------------

/-- A verifier at the other end of two pipes. -/
structure Pipes where
  input : IO.FS.Handle
  output : IO.FS.Handle

/-- Connects to the verifier that a command names. -/
def connect (command : String) : IO (Except LaunchError Pipes) := do
  let searchPath := ((← IO.getEnv "PATH").getD "").splitOn ":"
  let programs := if Host.isPath command then [command]
    else searchPath.map fun dir => Path.join dir command
  for program in programs do
    try
      let input ← IO.FS.Handle.mk (program ++ ".in") .readWrite
      let output ← IO.FS.Handle.mk (program ++ ".out") .read
      return .ok ⟨input, output⟩
    catch _ => pure ()
  return .error ⟨[s!"{command} not found in PATH", "cannot find binary path"]⟩

/-- The bytes up to the end of a line, or of the verifier's output. -/
partial def readLine (output : IO.FS.Handle) (line : ByteArray) : IO ByteArray := do
  let byte ← output.read 1
  let line := line ++ byte
  if byte.isEmpty || byte.toList == [10] then return line else readLine output line

/-- Waits for a task up to a time. -/
partial def waitUntil {α : Type} (task : Task α) (deadline : Nat) : IO (Option α) := do
  if ← IO.hasFinished task then return some task.get
  else if deadline ≤ (← IO.monoMsNow) then return none
  else
    IO.sleep 5
    waitUntil task deadline

/-- Sends what is to be sent and takes in what arrives, until there is a verdict or
time has run out. -/
partial def converse (pipes : Pipes) (uri : Uri) (r : Registry) (received deadline : Nat) :
    IO (Registry × Option Check.Verdict) := do
  match Check.await uri r with
  | (r, some verdict) => return (r, some verdict)
  | (r, none) =>
    let queries := Check.sent r
    for query in queries.drop received do
      pipes.input.putStr (query.line ++ "\n")
    pipes.input.flush
    let reading ← IO.asTask (readLine pipes.output .empty) Task.Priority.dedicated
    match ← waitUntil reading deadline with
    | some (.ok bytes) =>
      let r := r.onVerifier 0 fun role =>
        if bytes.isEmpty then .exit role none else .output role bytes
      converse pipes uri r queries.length deadline
    | some (.error _) =>
      converse pipes uri (r.onVerifier 0 fun role => .exit role none) queries.length deadline
    | none => return (r, none)

-- ---------------------------------------------------------------------------
-- The program
-- ---------------------------------------------------------------------------

def check (args : CheckArgs) (config : Config) : IO Outcome := do
  match ← readText args.file with
  | .error e => return .ofError [s!"reading {args.file}", e.message]
  | .ok text =>
    let cwd ← IO.currentDir
    let pipes ← connect config.verifier.command
    let registry : Registry :=
      { settings := Check.sessionSettings config.session, cwd := cwd.toString }
    let launcher : Launcher := fun _ _ => pipes.map fun _ => ()
    match registry.openPath launcher args.file text, pipes with
    | (r, .ok uri), .ok pipes =>
      let deadline := (← IO.monoMsNow) + 1000 * args.timeout
      let (r, verdict) ← converse pipes uri r 0 deadline
      return Check.conclude args uri r verdict
    | (_, .error e), _ => return .ofError e.causes
    | _, .error e => return .ofError e.causes

def run (arguments : List String) : IO Outcome := do
  match CheckArgs.parse arguments with
  | .error e => return .ofError e.causes
  | .ok args =>
    match ← loadConfig args with
    | .error e => return .ofError e.causes
    | .ok (config, warning) =>
      IO.eprint warning
      check args config

end VerifierClient.Console

def main (arguments : List String) : IO UInt32 := do
  let outcome ← VerifierClient.Console.run arguments
  IO.print outcome.stdout
  IO.eprint outcome.stderr
  return outcome.exitCode.toUInt32
