import VerifierClient.Text.Decimal

/-!
# The command line

There is one command, `check`, with a file to be checked and options in any order.

* `CheckArgs.parse` — reads the arguments.
-/

namespace VerifierClient

def usage : String := "usage: proofline check <file> [--config <path>] [--timeout <secs>]"

/-- What is to be done. -/
structure CheckArgs where
  file : String
  config : Option String
  /-- after so many seconds the check is given up -/
  timeout : Nat
deriving DecidableEq, Repr, Inhabited

/-- What is wrong with a command line. -/
inductive ArgsError where
  | noCommand
  | unknownCommand (name : String)
  | noFile
  | noConfigPath
  | noTimeout
  | invalidTimeout (raw : String) (error : Text.NumeralError)
  | unknownOption (option : String)
  | unexpected (argument : String)
deriving DecidableEq, Repr, Inhabited

namespace ArgsError

def message : ArgsError → String
  | noCommand => usage
  | unknownCommand name => s!"unknown command '{name}'\n{usage}"
  | noFile => usage
  | noConfigPath => "--config needs a path"
  | noTimeout => "--timeout needs a value"
  | invalidTimeout raw _ => s!"invalid timeout '{raw}'"
  | unknownOption option => s!"unknown option '{option}'\n{usage}"
  | unexpected argument => s!"unexpected argument '{argument}'\n{usage}"

/-- The message and what lies behind it. -/
def causes : ArgsError → List String
  | invalidTimeout raw error => [(invalidTimeout raw error).message, error.message]
  | e => [e.message]

end ArgsError

namespace CheckArgs

def defaultTimeout : Nat := 600

/-- The arguments as far as they are read. -/
structure Draft where
  file : Option String := none
  config : Option String := none
  timeout : Nat := defaultTimeout
deriving DecidableEq, Repr, Inhabited

/-- An argument that is no known option. -/
def Draft.addFile (d : Draft) (argument : String) : Except ArgsError Draft :=
  if argument.startsWith "--" then .error (.unknownOption argument)
  else if d.file.isSome then .error (.unexpected argument)
  else .ok { d with file := some argument }

/-- Reads the arguments after the command. -/
def Draft.read (d : Draft) : List String → Except ArgsError Draft
  | [] => .ok d
  | "--config" :: rest =>
    match rest with
    | [] => .error .noConfigPath
    | path :: rest => { d with config := some path }.read rest
  | "--timeout" :: rest =>
    match rest with
    | [] => .error .noTimeout
    | raw :: rest =>
      match Text.parseNumeral Text.wordLimit raw.toList with
      | .error e => .error (.invalidTimeout raw e)
      | .ok timeout => { d with timeout }.read rest
  | argument :: rest =>
    match d.addFile argument with
    | .error e => .error e
    | .ok d => d.read rest

def Draft.finish (d : Draft) : Except ArgsError CheckArgs :=
  match d.file with
  | some file => .ok ⟨file, d.config, d.timeout⟩
  | none => .error .noFile

def parse : List String → Except ArgsError CheckArgs
  | [] => .error .noCommand
  | command :: rest =>
    if command = "check" then
      match ({} : Draft).read rest with
      | .ok d => d.finish
      | .error e => .error e
    else .error (.unknownCommand command)

end CheckArgs

end VerifierClient
