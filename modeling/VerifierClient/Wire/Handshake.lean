import VerifierClient.Path
import VerifierClient.Position

/-!
# The handshake

What a verifier says about itself when it starts, and by which name it refers to
the document under check: by `<input>` in older versions of the protocol, by its
path in newer ones.
-/

namespace VerifierClient

/-- What the verifier can do. -/
structure Capabilities where
  version : Nat := 0
  fullBuffer : Bool := false
deriving DecidableEq, Repr, Inhabited

namespace Capabilities

/-- From this version on the verifier uses the document's path. -/
def realPathVersion : Nat := 3

/-- The feature of verifiers that stream the results of a whole buffer. -/
def fullBufferFeature : String := "full-buffer"

def ofHandshake (version : Nat) (features : List String) : Capabilities :=
  ⟨version, features.contains fullBufferFeature⟩

/-- The name to use for the document when talking to the verifier. -/
def selfReferenceName (c : Capabilities) (path : Option String) : String :=
  match path with
  | some path => if realPathVersion ≤ c.version then path else inputFileName
  | none => inputFileName

end Capabilities

/-- Whether a file name given by the verifier means the document under check. -/
def isSelfReference (fname : String) (document : Option String) : Bool :=
  fname == inputFileName ||
    match document with
    | some path => Path.same fname path
    | none => false

end VerifierClient
