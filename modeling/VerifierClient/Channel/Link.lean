import VerifierClient.Channel.Basic
import VerifierClient.Line.Reader

/-!
# A channel on its byte stream

The verifier's output arrives in pieces; a link cuts it into lines and gives them
to its channel, until the output ends or the channel is disposed of.
-/

namespace VerifierClient

structure Link where
  channel : Channel
  reader : LineReader := {}
  /-- whether the verifier's output is still read -/
  reading : Bool := true
deriving Inhabited

namespace Link

def new (role : Role) : Link := { channel := { role } }

def onChannel (l : Link) (f : Channel → Channel) : Link := { l with channel := f l.channel }

/-- Gives the lines read so far to the channel. -/
def deliver (l : Link) : Link :=
  let (lines, reader) := l.reader.takeLines
  { l with reader, channel := lines.foldl Channel.receive l.channel }

/-- A piece of the verifier's output. -/
def feed (l : Link) (bytes : ByteArray) : Link :=
  if l.reading then ({ l with reader := l.reader.feed bytes }).deliver else l

/-- The verifier's output ends, and the verifier with the given exit code. -/
def close (l : Link) (code : Option Int) : Link :=
  if l.reading then
    let l := ({ l with reader := l.reader.finish }).deliver
    { l with reading := false, channel := l.channel.markExited code }
  else l

def dispose (l : Link) : Link := { l with reading := false, channel := l.channel.dispose }

end Link

end VerifierClient
