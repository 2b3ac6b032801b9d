import VerifierClient.Text.Decimal

/-!
# Query ids

A channel numbers its queries. On the wire an id is a decimal numeral; messages
that stream the results of query `4` carry the ids `4`, `4.1`, `4.2`, … . Ids go
out in canonical form, so only that form refers to a query.
-/

namespace VerifierClient

/-- The number of a query. -/
structure QueryId where
  number : Nat
deriving DecidableEq, Repr, Inhabited

namespace QueryId

/-- Ids are smaller than this. -/
def limit : Nat := Text.wordLimit

/-- The wire form of an id. -/
def text (id : QueryId) : String := Text.decimalText id.number

/-- The query that `raw` names exactly. -/
def parse? (raw : String) : Option QueryId :=
  (Text.parseCanonical? limit raw.toList).map QueryId.mk

/-- The query whose results `raw` belongs to: the part before the first dot. -/
def owner? (raw : String) : Option QueryId :=
  (Text.parseCanonical? limit (raw.toList.takeWhile (· != '.'))).map QueryId.mk

end QueryId

end VerifierClient
