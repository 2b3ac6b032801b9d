import VerifierClient.Host.FileTree
import VerifierClient.Role
import VerifierClient.Settings

/-!
# Launching verifiers

Which program a command names, with which arguments and where a verifier runs,
and why one cannot be launched.

* `Host.launch` — the launch of a verifier on a host.
-/

namespace VerifierClient

/-- Why a verifier could not be launched, the outermost cause first. -/
structure LaunchError where
  causes : List String
deriving DecidableEq, Repr, Inhabited

/-- The causes on one line. -/
def LaunchError.chain (e : LaunchError) : String := ": ".intercalate e.causes

/-- Launches the verifier of a role for the document at a path, or says why not. -/
abbrev Launcher := Role → String → Except LaunchError Unit

-- ---------------------------------------------------------------------------
-- Settings
-- ---------------------------------------------------------------------------

namespace VerifierSettings

/-- The arguments that a verifier is launched with. The document comes last. -/
def arguments (s : VerifierSettings) (role : Role) (document : String) : List String :=
  s.args ++ (if role = .lax then s.laxArgs else []) ++ [document]

/-- The directory that a verifier is to run in, unless it is the client's. -/
def workingDirectory (s : VerifierSettings) (document : String) : Option String :=
  (s.cwd.or (Path.parent? document)).filter fun dir => !dir.isEmpty

end VerifierSettings

-- ---------------------------------------------------------------------------
-- Hosts
-- ---------------------------------------------------------------------------

/-- What a client sees of the machine that it runs on. -/
structure Host where
  tree : FileTree
  /-- the working directory -/
  cwd : List String
  /-- the user's directory -/
  home : String
  /-- directories in which commands are looked for -/
  searchPath : List String
  /-- files that can be run -/
  programs : List (List String)

/-- A verifier that was launched. -/
structure Launched where
  arguments : List String
  /-- the directory that it runs in -/
  directory : List String
deriving DecidableEq, Repr, Inhabited

namespace Host

/-- The absolute path of a place. -/
def pathOf (names : List String) : String := Path.ofComponents ⟨true, names⟩

/-- Whether a path leads to a file that can be run. -/
def isProgram (h : Host) (path : String) : Bool :=
  match h.tree.resolve h.cwd path with
  | .ok there => (h.tree.file? there).isSome && h.programs.contains there
  | .error _ => false

/-- Whether a command is a path and not only a name. -/
def isPath (command : String) : Bool :=
  let c := Path.components command
  1 < c.names.length + (if c.absolute then 1 else 0)

/-- Where the program of a command may be. -/
def candidates (h : Host) (command : String) : List String :=
  if isPath command then
    if Path.isAbsolute command then [command]
    else [pathOf (h.cwd ++ (Path.components command).names.dropWhile (· = "."))]
  else h.searchPath.map fun dir => Path.join dir command

/-- The program that a command names. -/
def which? (h : Host) (command : String) : Option String :=
  (h.candidates command).find? h.isProgram

/-- A verifier for a document, launched with its settings. -/
def launch (h : Host) (settings : VerifierSettings) (role : Role) (document : String) :
    Except LaunchError Launched :=
  match h.which? settings.command with
  | none => .error ⟨[s!"{settings.command} not found in PATH", "cannot find binary path"]⟩
  | some program =>
    let arguments := settings.arguments role document
    let dir := settings.workingDirectory document
    let spawnError := fun cause => Except.error (LaunchError.mk [s!"spawning {program}", cause])
    if (arguments ++ dir.toList).any fun text => text.toList.contains '\x00' then
      spawnError "nul byte found in provided data"
    else
      match dir with
      | none => .ok ⟨arguments, h.cwd⟩
      | some dir =>
        match h.tree.resolveDirectory h.cwd dir with
        | .ok directory => .ok ⟨arguments, directory⟩
        | .error e => spawnError e.message

end Host

end VerifierClient
