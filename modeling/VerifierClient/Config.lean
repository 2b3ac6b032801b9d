import VerifierClient.Host.FileTree
import VerifierClient.Settings
import VerifierClient.Toml.Parser

/-!
# The configuration file

A configuration file is a TOML document with a section for the verifier and one
for the sessions; both may be left out.

* `Config.parse?` — the configuration in a text;
* `Config.ofFile` — the configuration in a file that was read.
-/

namespace VerifierClient

structure Config where
  verifier : VerifierSettings := {}
  session : SessionSettings := {}
deriving DecidableEq, Repr, Inhabited

/-- Why there is no configuration at a path. -/
inductive ConfigError where
  | unreadable (path : String) (error : FileError)
  | malformed (path : String)
deriving DecidableEq, Repr, Inhabited

namespace ConfigError

def message : ConfigError → String
  | unreadable path error => s!"failed to read config at {path}: {error.message}"
  | malformed path => s!"failed to parse config at {path}"

/-- The message and what lies behind it. -/
def causes : ConfigError → List String
  | unreadable path error => [(unreadable path error).message, error.message]
  | malformed path => [(malformed path).message]

end ConfigError

namespace Config

def verifierOfJson? (j : Json) : Option VerifierSettings :=
  match VerifierSettings.ofJson j with
  | .ok settings => some settings
  | .error _ => none

def ofJson? (j : Json) : Option Config :=
  match j.fields? ["verifier", "session"] with
  | some [verifier, session] => do
    let verifier ← Json.orDefault {} verifierOfJson? verifier
    let session ← Json.orDefault {} SessionSettings.ofJson? session
    some { verifier, session }
  | _ => none

def parse? (text : String) : Option Config := do
  let members ← Toml.parse? text
  ofJson? (.obj (Toml.membersToJson members))

/-- The configuration in the file at `path` with the given text. -/
def ofFile (path : String) : Except FileError String → Except ConfigError Config
  | .error e => .error (.unreadable path e)
  | .ok text =>
    match parse? text with
    | some config => .ok config
    | none => .error (.malformed path)

end Config

end VerifierClient
