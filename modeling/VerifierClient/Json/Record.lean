import VerifierClient.Json.Basic

/-!
# Records in JSON

How typed data is read from a JSON document. A record is an object, whose
unknown members are ignored and whose known members may not be repeated, or an
array of its fields in order, of which the last ones may be left off where they
have a default. A name out of a fixed set is a string, or an object with that
name as its only key.

Every reader here is a partial function `Json → Option α`, with `none` for data
of another shape.
-/

namespace VerifierClient.Json

-- ---------------------------------------------------------------------------
-- Plain data
-- ---------------------------------------------------------------------------

def asStr? : Json → Option String
  | .str s => some s
  | _ => none

def asBool? : Json → Option Bool
  | .bool b => some b
  | _ => none

/-- A natural number below `limit`. -/
def asNat? (limit : Nat) : Json → Option Nat
  | .int n => if 0 ≤ n ∧ n < limit then some n.toNat else none
  | _ => none

/-- A number below `2 ^ 32`. -/
def asNat32? : Json → Option Nat := asNat? 4294967296

/-- A number below `2 ^ 64`. -/
def asNat64? : Json → Option Nat := asNat? Text.wordLimit

/-- A signed number of 64 bits. -/
def asInt64? : Json → Option Int
  | .int n => if intLow ≤ n ∧ n < -intLow then some n else none
  | _ => none

/-- An array of data that `item?` reads. -/
def asList? {α : Type} (item? : Json → Option α) : Json → Option (List α)
  | .arr items => items.mapM item?
  | _ => none

-- ---------------------------------------------------------------------------
-- Records
-- ---------------------------------------------------------------------------

/-- The values given to one key, in order. -/
def valuesOf (key : String) (members : List (String × Json)) : List Json :=
  (members.filter fun member => member.1 == key).map Prod.snd

/-- What an object gives for one field; a repeated field is refused. -/
def member? (members : List (String × Json)) (key : String) : Option (Option Json) :=
  match valuesOf key members with
  | [] => some none
  | [value] => some (some value)
  | _ => none

/-- What a document gives for each of the fields of a record. -/
def fields? (names : List String) : Json → Option (List (Option Json))
  | .obj members => names.mapM (member? members)
  | .arr items =>
    if items.length ≤ names.length then
      some (items.map some ++ List.replicate (names.length - items.length) none)
    else none
  | _ => none

/-- A field that has to be given. -/
def required {α : Type} (read? : Json → Option α) : Option Json → Option α
  | none => none
  | some value => read? value

/-- A field that may be left out. -/
def orDefault {α : Type} (default : α) (read? : Json → Option α) : Option Json → Option α
  | none => some default
  | some value => read? value

/-- A field that may be left out or null. -/
def optional {α : Type} (read? : Json → Option α) : Option Json → Option (Option α)
  | none => some none
  | some .null => some none
  | some value => (read? value).map some

-- ---------------------------------------------------------------------------
-- Names
-- ---------------------------------------------------------------------------

/-- A name: a string, or an object with the name as its only key and null. -/
def name? : Json → Option String
  | .str s => some s
  | .obj [(key, .null)] => some key
  | _ => none

/-- A name in the head of a message, where an empty object may stand for null. -/
def headName? : Json → Option String
  | .obj [(key, .obj [])] => some key
  | j => name? j

end VerifierClient.Json
