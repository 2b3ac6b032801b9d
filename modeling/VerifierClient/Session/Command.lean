import VerifierClient.Channel.Basic
import VerifierClient.Status
import VerifierClient.Wire.Answer

/-!
# What goes in and out of a document session

* `Command` — what editors and timers ask of a session;
* `SessionEvent` — what a session publishes;
* `Reply` — the answer to a command that has one. Such a command carries a
  ticket, which its reply is filed under.
-/

namespace VerifierClient

-- ---------------------------------------------------------------------------
-- Commands
-- ---------------------------------------------------------------------------

inductive Command where
  /-- the text of the document is now `text` -/
  | textChanged (text : String)
  /-- check the whole document -/
  | requestFull (kind : BufferKind)
  /-- check the document up to `position`; `lax` admits proof obligations -/
  | requestTo (position : Position) (lax : Bool)
  | saved
  | lookup (position : Position) (ticket : Nat)
  | complete (position : Position) (ticket : Nat)
  | proofStates (line : Nat) (ticket : Nat)
  | restartSolver
  /-- posted when the text has not changed for a while -/
  | verify
  /-- posted when it is time to publish -/
  | publish
  /-- posted when it is time for the lax verifier to check the text -/
  | flyCheck
  | dispose (ticket : Option Nat)
deriving DecidableEq, Repr, Inhabited

/-- The ticket of a command that is answered. -/
def Command.ticket? : Command → Option Nat
  | lookup _ ticket => some ticket
  | complete _ ticket => some ticket
  | proofStates _ ticket => some ticket
  | dispose ticket => ticket
  | _ => none

-- ---------------------------------------------------------------------------
-- Events
-- ---------------------------------------------------------------------------

inductive SessionEvent where
  /-- all diagnostics of the document -/
  | diagnostics (items : List Diagnostic)
  /-- the status of all parts of the document -/
  | status (fragments : List FragmentStatus)
  /-- a message for the user -/
  | alert (message : String)
  /-- a full-buffer sequence is over -/
  | finished (role : Role)
deriving DecidableEq, Repr, Inhabited

-- ---------------------------------------------------------------------------
-- Replies
-- ---------------------------------------------------------------------------

inductive SessionError where
  /-- the session takes no more commands -/
  | closed
  | channel (error : ChannelError)
deriving DecidableEq, Repr, Inhabited

def SessionError.message : SessionError → String
  | closed => "document session is closed"
  | channel error => error.message

inductive Reply where
  /-- what is known about a symbol -/
  | info (symbol : Option SymbolInfo)
  | completions (items : List Completion)
  | proofStates (states : List ProofState)
  | disposed
  | failed (error : SessionError)
deriving Inhabited

/-- The reply to a command that comes when the session is closed. -/
def Command.refusal : Command → Reply
  | dispose _ => .disposed
  | _ => .failed .closed

end VerifierClient
