import VerifierClient.Host.Trial
import VerifierClient.Line.Writer
import VerifierClient.Main
import VerifierClient.Proofs.Channel.Correlation
import VerifierClient.Proofs.Session.Mirror
import VerifierClient.Proofs.Result.Replay
import VerifierClient.Proofs.Result.Verdicts
import VerifierClient.Proofs.Channel.Flight
import VerifierClient.Proofs.Session.Front
import VerifierClient.Proofs.Session.Edits
import VerifierClient.Proofs.Channel.Ends
import VerifierClient.Proofs.Channel.Stranding
import VerifierClient.Proofs.Session.Halves
import VerifierClient.Proofs.Session.Closing
import VerifierClient.Proofs.Session.Separation
import VerifierClient.Proofs.Registry.Shelves
import VerifierClient.Proofs.Registry.Convergence
import VerifierClient.Proofs.Result.Authority
import VerifierClient.Proofs.Session.Bulletin
import VerifierClient.Proofs.Session.Publication
import VerifierClient.Proofs.Session.Marker
import VerifierClient.Proofs.Line.Framing
import VerifierClient.Proofs.Result.Arrivals
import VerifierClient.Proofs.Timer.Pacing
import VerifierClient.Proofs.Json.Canonical
import VerifierClient.Proofs.Line.Messages
import VerifierClient.Proofs.Timer.Lulls
import VerifierClient.Proofs.Timer.Turns
import VerifierClient.Proofs.Text.Words
import VerifierClient.Proofs.Channel.Strays
import VerifierClient.Proofs.Registry.Snapshots
import VerifierClient.Proofs.Uri.Documents
import VerifierClient.Proofs.Cli.Grammar
import VerifierClient.Proofs.Json.Readers
import VerifierClient.Proofs.Wire.Records
import VerifierClient.Proofs.Text.Parting
import VerifierClient.Proofs.Wire.Display
