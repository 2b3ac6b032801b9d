/-!
# Paths

A path is a text; what it names is given by its components. Repeated slashes, a
slash at the end and `.` components in between are ignored, a `.` at the start
of a relative path and `..` are not.
-/

namespace VerifierClient.Path

/-- The pieces of a text between slashes. -/
def pieces : List Char → List (List Char)
  | [] => [[]]
  | c :: rest =>
    if c = '/' then [] :: pieces rest
    else match pieces rest with
      | [] => [[c]]
      | piece :: more => (c :: piece) :: more

/-- What a path names: whether it starts at the root, and the names on the way. -/
structure Components where
  absolute : Bool
  names : List String
deriving DecidableEq, Repr

def isAbsolute (path : String) : Bool := path.toList.head? == some '/'

/-- The names between slashes, without those that name nothing. -/
def steps (names : List (List Char)) : List String :=
  (names.filter fun name => name ≠ [] ∧ name ≠ ['.']).map String.ofList

def components (path : String) : Components :=
  match pieces path.toList with
  | ['.'] :: rest => ⟨false, "." :: steps rest⟩
  | names => ⟨isAbsolute path, steps names⟩

/-- Whether two paths have the same components. -/
def same (p q : String) : Bool := components p == components q

/-- The path made of the given components. -/
def ofComponents (c : Components) : String :=
  (if c.absolute then "/" else "") ++ "/".intercalate c.names

/-- The path of the directory that holds `path`, `none` for a root or an empty path. -/
def parent? (path : String) : Option String :=
  let c := components path
  if c.names.isEmpty then none else some (ofComponents ⟨c.absolute, c.names.dropLast⟩)

/-- The path reached from directory `base` by `path`. -/
def join (base path : String) : String :=
  if isAbsolute path then path
  else if base.isEmpty || base.endsWith "/" then base ++ path
  else base ++ "/" ++ path

end VerifierClient.Path
