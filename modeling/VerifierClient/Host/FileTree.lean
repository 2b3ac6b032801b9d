import VerifierClient.Path

/-!
# Trees of files

A tree of files as data: what a path leads to, and what is wrong with a path that
leads nowhere.

* `FileTree.resolve` — follows a path;
* `FileTree.readText` — the text of a file.
-/

namespace VerifierClient

/-- Why a path cannot be used. -/
inductive FileError where
  | notFound
  | notDirectory
  | isDirectory
  | nameTooLong
  /-- the path has a character that no path can have -/
  | nulInPath
  /-- the file is not UTF-8 -/
  | notText
deriving DecidableEq, Repr, Inhabited

def FileError.message : FileError → String
  | notFound => "No such file or directory (os error 2)"
  | notDirectory => "Not a directory (os error 20)"
  | isDirectory => "Is a directory (os error 21)"
  | nameTooLong => "File name too long (os error 36)"
  | nulInPath => "file name contained an unexpected NUL byte"
  | notText => "stream did not contain valid UTF-8"

/-- Files and directories, by the names on the way from the root. -/
structure FileTree where
  files : List (List String × ByteArray) := []
  /-- directories besides those that hold files -/
  directories : List (List String) := []

namespace FileTree

def file? (t : FileTree) (names : List String) : Option ByteArray :=
  (t.files.find? fun entry => entry.1 = names).map Prod.snd

/-- Whether there is a directory: one that was put there, or one on the way to
something. -/
def isDirectory (t : FileTree) (names : List String) : Bool :=
  names.isEmpty || t.directories.any (names.isPrefixOf ·) ||
    t.files.any fun entry => names.isPrefixOf entry.1.dropLast

/-- Names have at most this many bytes. -/
def maxNameBytes : Nat := 255

/-- Paths have at most this many bytes. -/
def maxPathBytes : Nat := 4095

/-- The place that a name leads to from the place `here`. -/
def enter (t : FileTree) (here : List String) (name : String) : Except FileError (List String) :=
  if !t.isDirectory here then .error .notDirectory
  else if name = "" ∨ name = "." then .ok here
  else if name = ".." then .ok here.dropLast
  else if maxNameBytes < name.utf8ByteSize then .error .nameTooLong
  else
    let there := here ++ [name]
    if (t.file? there).isSome || t.isDirectory there then .ok there else .error .notFound

/-- The place that a path leads to from the directory `cwd`. -/
def resolve (t : FileTree) (cwd : List String) (path : String) : Except FileError (List String) :=
  if path.toList.contains '\x00' then .error .nulInPath
  else if path.isEmpty then .error .notFound
  else if maxPathBytes < path.utf8ByteSize then .error .nameTooLong
  else
    let start := if Path.isAbsolute path then [] else cwd
    (Path.pieces path.toList).foldlM (fun here name => t.enter here (String.ofList name)) start

/-- The directory that a path leads to. -/
def resolveDirectory (t : FileTree) (cwd : List String) (path : String) :
    Except FileError (List String) := do
  let there ← t.resolve cwd path
  if t.isDirectory there then .ok there else .error .notDirectory

def readFile (t : FileTree) (cwd : List String) (path : String) : Except FileError ByteArray := do
  let there ← t.resolve cwd path
  match t.file? there with
  | some bytes => .ok bytes
  | none => .error .isDirectory

/-- The text of bytes that are UTF-8. -/
def decodeText (bytes : ByteArray) : Except FileError String :=
  match String.fromUTF8? bytes with
  | some text => .ok text
  | none => .error .notText

def readText (t : FileTree) (cwd : List String) (path : String) : Except FileError String := do
  decodeText (← t.readFile cwd path)

def existsAt (t : FileTree) (cwd : List String) (path : String) : Bool :=
  match t.resolve cwd path with
  | .ok _ => true
  | .error _ => false

end FileTree

end VerifierClient
