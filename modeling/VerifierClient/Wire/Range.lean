import VerifierClient.Json.Record
import VerifierClient.Position

/-!
# Positions on the wire

The verifier writes a position as the pair `[line, column]` and a range as a
record of a file name and two positions.
-/

namespace VerifierClient

namespace ExternalPosition

def toJson (p : ExternalPosition) : Json := .arr [.nat p.line, .nat p.column]

def ofJson? : Json → Option ExternalPosition
  | .arr [line, column] => do
    let line ← line.asNat32?
    let column ← column.asNat32?
    some ⟨line, column⟩
  | _ => none

end ExternalPosition

namespace ExternalRange

def toJson (r : ExternalRange) : Json :=
  .ofMembers [("fname", .str r.fname), ("beg", r.beg.toJson), ("end", r.stop.toJson)]

def ofJson? (j : Json) : Option ExternalRange :=
  match j.fields? ["fname", "beg", "end"] with
  | some [fname, beg, stop] => do
    let fname ← Json.required Json.asStr? fname
    let beg ← Json.required ExternalPosition.ofJson? beg
    let stop ← Json.required ExternalPosition.ofJson? stop
    some ⟨fname, beg, stop⟩
  | _ => none

end ExternalRange

end VerifierClient
