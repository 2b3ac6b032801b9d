import VerifierClient.Json.Basic

/-!
# Writing lines

A message goes out as its compact JSON text and a line feed. The text holds no
line feed of its own, since strings escape control characters.
-/

namespace VerifierClient

/-- The line of a message. -/
def writeMessage (message : Json) : String := message.text ++ "\n"

/-- The lines of several messages. -/
def writeMessages (messages : List Json) : String := String.join (messages.map writeMessage)

end VerifierClient
