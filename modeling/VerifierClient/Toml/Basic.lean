import VerifierClient.Json.Basic
import VerifierClient.Table

/-!
# TOML documents

A document is a table of values. A table remembers how it came about, since that
decides what may be added to it later: a table with a header is defined once, a
table made by dotted keys is extended by dotted keys only, and an inline table is
complete as it stands.

* `Toml` — values;
* `Toml.addPair`, `Toml.addTable`, `Toml.addElement` — what a line of a document
  does to the document so far;
* `Toml.toJson` — a value as settings are read from it.
-/

namespace VerifierClient

/-- How a table came about. -/
inductive TableOrigin where
  /-- by a header, or as the document itself -/
  | header
  /-- as a part of the header of another table -/
  | implied
  /-- by dotted keys -/
  | dotted
  /-- between braces -/
  | inline
deriving DecidableEq, Repr, Inhabited

inductive Toml where
  | string (s : String)
  | integer (n : Int)
  | float (text : String)
  | boolean (b : Bool)
  | datetime (text : String)
  | array (items : List Toml)
  /-- an array of tables with headers -/
  | tables (items : List Toml)
  | table (origin : TableOrigin) (members : List (String × Toml))
deriving Repr, Inhabited

namespace Toml

abbrev Members := Table String Toml

-- ---------------------------------------------------------------------------
-- Building documents
-- ---------------------------------------------------------------------------

/-- Edits the table that a path leads to, making the tables on the way that are
missing. A path of dotted keys does not lead through tables with headers, and no
path leads through inline tables or plain values. The way through an array of
tables is its last one. -/
def editAt (byKey : Bool) (edit : TableOrigin → Members → Option Members) :
    List String → TableOrigin → Members → Option Members
  | [], origin, members => edit origin members
  | key :: path, _, members =>
    match members.get? key with
    | none => do
      let origin := if byKey then .dotted else .implied
      let inner ← editAt byKey edit path origin []
      some (members.insert key (.table origin inner))
    | some (.table origin inner) =>
      if origin = .inline ∨ (byKey ∧ origin = .header) then none
      else do
        let inner ← editAt byKey edit path origin inner
        some (members.modify key fun _ => .table origin inner)
    | some (.tables items) =>
      match items.getLast? with
      | some (.table origin inner) => do
        let inner ← editAt byKey edit path origin inner
        some (members.modify key fun _ => .tables (items.dropLast ++ [.table origin inner]))
      | _ => none
    | some _ => none

/-- Adds a pair to the table at hand. A plain key does not go into a table made by
dotted keys, and dotted keys go into no other. -/
def addPair (path : List String) (key : String) (value : Toml) (origin : TableOrigin)
    (members : Members) : Option Members :=
  editAt true
    (fun origin members =>
      if decide (origin = .dotted) == path.isEmpty || members.contains key then none
      else some (members.insert key value))
    path origin members

/-- Adds a table with a header to the document. -/
def addTable (path : List String) (key : String) (root : Members) : Option Members :=
  editAt false
    (fun _ members =>
      match members.get? key with
      | none => some (members.insert key (.table .header []))
      | some (.table .implied inner) => some (members.modify key fun _ => .table .header inner)
      | some _ => none)
    path .header root

/-- Adds a table to an array of tables of the document. -/
def addElement (path : List String) (key : String) (root : Members) : Option Members :=
  editAt false
    (fun _ members =>
      match members.get? key with
      | none => some (members.insert key (.tables [.table .header []]))
      | some (.tables items) =>
        some (members.modify key fun _ => .tables (items ++ [.table .header []]))
      | some _ => none)
    path .header root

-- ---------------------------------------------------------------------------
-- Settings
-- ---------------------------------------------------------------------------

mutual
/-- A value as settings are read from it. No setting is a float or a time: all
that has to be seen of a float is that it is no integer, and of a time that it
has no fields that settings have. -/
def toJson : Toml → Json
  | string s => .str s
  | integer n => .int n
  | float _ => .double (Double.zero false)
  | boolean b => .bool b
  | datetime text => .obj [("datetime", .str text)]
  | array items => .arr (itemsToJson items)
  | tables items => .arr (itemsToJson items)
  | table _ members => .obj (membersToJson members)

def itemsToJson : List Toml → List Json
  | [] => []
  | item :: rest => toJson item :: itemsToJson rest

def membersToJson : List (String × Toml) → List (String × Json)
  | [] => []
  | (key, value) :: rest => (key, toJson value) :: membersToJson rest
end

end Toml

end VerifierClient
