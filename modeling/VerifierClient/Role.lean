/-!
# Roles

A document has two verifiers: a strict one, whose word counts, and a lax one
that checks every edit with proof obligations admitted.
-/

namespace VerifierClient

inductive Role where
  | strict
  | lax
deriving DecidableEq, Repr, Inhabited

namespace Role

def name : Role → String
  | strict => "strict"
  | lax => "lax"

/-- The name used in messages to the user. -/
def title : Role → String
  | strict => "primary (strict)"
  | lax => "secondary (lax)"

end Role

end VerifierClient
