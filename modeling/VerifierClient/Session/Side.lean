import VerifierClient.Channel.Link
import VerifierClient.Result.Model

/-!
# One verifier of a document

A side of a session is the link to one of its verifiers together with the model
of what that verifier has reported.
-/

namespace VerifierClient

structure Side where
  link : Link
  model : ResultModel
deriving Inhabited

namespace Side

/-- A verifier that has just been launched for the document at `path`. -/
def new (role : Role) (path text : String) : Side := ⟨.new role, .new (some path) text⟩

def channel (side : Side) : Channel := side.link.channel

def onChannel (side : Side) (f : Channel → Channel) : Side :=
  { side with link := side.link.onChannel f }

def onModel (side : Side) (f : ResultModel → ResultModel) : Side :=
  { side with model := f side.model }

/-- Sends a query whose response is dropped, if the channel takes it. -/
def tell (side : Side) (query : Query) : Side :=
  side.onChannel fun c => (c.sendDetached query).1

/-- Sends `text` to be checked. The model learns of it only if the channel takes
the query. -/
def issue (side : Side) (kind : BufferKind) (text : String) (position : Option Position) :
    Side × Except ChannelError Unit :=
  let (channel, result) := side.channel.startFullBuffer (.fullBuffer kind text position)
  let side := side.onChannel fun _ => channel
  match result with
  | .ok _ => (side.onModel fun m => m.requestIssued text, .ok ())
  | .error e => (side, .error e)

/-- The work in flight past `position` is no longer needed. -/
def cancel (side : Side) (position : Position) : Side :=
  if side.channel.inFlight then side.onChannel fun c => (c.cancel position).1 else side

def textChanged (side : Side) (text : String) : Side := side.onModel fun m => m.textChanged text

/-- Tells the side of a new text; work past the edit is cancelled. -/
def edit (side : Side) (text : String) : Side :=
  match side.model.editPosition text with
  | none => side.textChanged text
  | some position => (side.textChanged text).cancel position

/-- Gives the model a message of the sequence in flight. -/
def fold (side : Side) (message : StreamMessage) : Side := side.onModel fun m => m.fold message

/-- Gives the model a message outside of any sequence. -/
def addNotice (side : Side) (n : Notice) : Side := side.onModel fun m => m.addNotice n

def dispose (side : Side) : Side := { side with link := side.link.dispose }

end Side

end VerifierClient
