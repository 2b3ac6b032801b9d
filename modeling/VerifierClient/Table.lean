/-!
# Tables

Finite maps as association lists. A key that is given a value goes to the end of
the list, so a table lists its keys in the order in which they got their values.
-/

namespace VerifierClient

/-- A finite map, as a list in which every key stands once. -/
abbrev Table (κ α : Type) := List (κ × α)

namespace Table

variable {κ α : Type} [DecidableEq κ]

def get? (t : Table κ α) (key : κ) : Option α := (t.find? fun entry => entry.1 = key).map Prod.snd

def contains (t : Table κ α) (key : κ) : Bool := (t.get? key).isSome

def erase (t : Table κ α) (key : κ) : Table κ α := t.filter fun entry => entry.1 ≠ key

def insert (t : Table κ α) (key : κ) (value : α) : Table κ α := t.erase key ++ [(key, value)]

/-- Puts a value in place, keeping the others where they are. -/
def modify (t : Table κ α) (key : κ) (f : α → α) : Table κ α :=
  t.map fun (k, value) => if k = key then (k, f value) else (k, value)

end Table

end VerifierClient
