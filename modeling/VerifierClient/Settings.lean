import VerifierClient.Json.Record
import VerifierClient.Text.Blank

/-!
# Settings

How the verifier is started, and how a document session behaves. Every setting
has a default, and settings can be read from structured data.
-/

namespace VerifierClient

-- ---------------------------------------------------------------------------
-- The verifier
-- ---------------------------------------------------------------------------

/-- How the verifier is started. -/
structure VerifierSettings where
  command : String := "fstar.exe"
  args : List String := ["--ide"]
  /-- further arguments of the lax verifier -/
  laxArgs : List String := ["--admit_smt_queries", "true"]
  /-- the working directory, if it is not the document's -/
  cwd : Option String := none
deriving DecidableEq, Repr, Inhabited

/-- Why settings are refused. -/
inductive SettingsError where
  | emptyCommand
  | invalid
deriving DecidableEq, Repr

def SettingsError.message : SettingsError → String
  | .emptyCommand => "verifier command must not be empty"
  | .invalid => "invalid settings"

namespace VerifierSettings

/-- Refuses a command that is blank. -/
def checked (s : VerifierSettings) : Except SettingsError VerifierSettings :=
  if Text.isBlankText s.command then .error .emptyCommand else .ok s

def raw? (j : Json) : Option VerifierSettings :=
  let defaults : VerifierSettings := {}
  match j.fields? ["command", "args", "lax_args", "cwd"] with
  | some [command, args, laxArgs, cwd] => do
    let command ← Json.orDefault defaults.command Json.asStr? command
    let args ← Json.orDefault defaults.args (Json.asList? Json.asStr?) args
    let laxArgs ← Json.orDefault defaults.laxArgs (Json.asList? Json.asStr?) laxArgs
    let cwd ← Json.optional Json.asStr? cwd
    some { command, args, laxArgs, cwd }
  | _ => none

def ofJson (j : Json) : Except SettingsError VerifierSettings :=
  match raw? j with
  | some s => s.checked
  | none => .error .invalid

end VerifierSettings

-- ---------------------------------------------------------------------------
-- Sessions
-- ---------------------------------------------------------------------------

/-- How a document session behaves; times are in milliseconds. -/
structure SessionSettings where
  /-- quiet time after the last edit before the document is verified again -/
  debounce : Nat := 250
  /-- least time between two publications -/
  publishInterval : Nat := 100
  /-- whether a lax verifier runs beside the strict one -/
  flyCheck : Bool := true
  /-- least time between two runs of the lax verifier -/
  flyCheckInterval : Nat := 200
  /-- whether to verify a document when it is opened, and not only to replay cached results -/
  verifyOnOpen : Bool := false
  /-- whether to verify a document again after edits -/
  verifyOnChange : Bool := true
deriving DecidableEq, Repr, Inhabited

def SessionSettings.ofJson? (j : Json) : Option SessionSettings :=
  let defaults : SessionSettings := {}
  match j.fields? ["debounce_ms", "publish_interval_ms", "fly_check", "fly_check_interval_ms",
      "verify_on_open", "verify_on_change"] with
  | some [debounce, publishInterval, flyCheck, flyCheckInterval, verifyOnOpen, verifyOnChange] => do
    let debounce ← Json.orDefault defaults.debounce Json.asNat64? debounce
    let publishInterval ← Json.orDefault defaults.publishInterval Json.asNat64? publishInterval
    let flyCheck ← Json.orDefault defaults.flyCheck Json.asBool? flyCheck
    let flyCheckInterval ← Json.orDefault defaults.flyCheckInterval Json.asNat64? flyCheckInterval
    let verifyOnOpen ← Json.orDefault defaults.verifyOnOpen Json.asBool? verifyOnOpen
    let verifyOnChange ← Json.orDefault defaults.verifyOnChange Json.asBool? verifyOnChange
    some { debounce, publishInterval, flyCheck, flyCheckInterval, verifyOnOpen, verifyOnChange }
  | _ => none

end VerifierClient
