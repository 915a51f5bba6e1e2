/-!
# File trees

Files and directories in memory, and the steps from name to name through them.
Every name but the last must be a directory, and a name is judged only once the
names before it have led to its directory.

## Main definitions

* `ReadError`: why a path cannot be read as text
* `maxNameBytes`, `maxPathBytes`: how long names and paths may be
* `FileTree`: a file or a directory
* `FileTree.follow`: what a list of names leads to
* `FileTree.ofFiles`: the directory with given files and directories
-/

namespace BranchPrediction

/-- Why a path cannot be read as text. -/
inductive ReadError where
  | notFound
  /-- The path leads to a directory. -/
  | isDirectory
  /-- The path leads through a file. -/
  | notDirectory
  | nameTooLong
  | nulInPath
  | invalidText
  /-- Any other reason, in words. -/
  | other (reason : String)
  deriving DecidableEq

/-- The wording of a failure. -/
def ReadError.message : ReadError → String
  | notFound => "No such file or directory (os error 2)"
  | isDirectory => "Is a directory (os error 21)"
  | notDirectory => "Not a directory (os error 20)"
  | nameTooLong => "File name too long (os error 36)"
  | nulInPath => "file name contained an unexpected NUL byte"
  | invalidText => "stream did not contain valid UTF-8"
  | other reason => reason

/-- The most bytes of one name on a path. -/
def maxNameBytes : Nat := 255

/-- The most bytes of a path. -/
def maxPathBytes : Nat := 4095

/-- A file or a directory. -/
inductive FileTree where
  | file (content : ByteArray)
  | dir (entries : List (String × FileTree))

namespace FileTree

/-- A directory without entries. -/
def empty : FileTree :=
  dir []

/-- A file with a text. -/
def ofText (text : String) : FileTree :=
  file text.toUTF8

/-- The entry of a directory with a given name. -/
def child? (name : String) : List (String × FileTree) → Option FileTree
  | [] => none
  | (other, t) :: rest => if other = name then some t else child? name rest

/-- The names on a path. -/
def names (path : String) : List String :=
  path.splitOn "/"

/-- Follows names from a directory `here` below the directories `above`, the
nearest one first. The topmost directory is its own parent. -/
def follow (above : List FileTree) (here : FileTree) : List String → Except ReadError FileTree
  | [] => .ok here
  | name :: rest =>
    match here with
    | file _ => .error .notDirectory
    | dir entries =>
      if name = "" ∨ name = "." then follow above here rest
      else if name = ".." then
        match above with
        | [] => follow [] here rest
        | parent :: above => follow above parent rest
      else if maxNameBytes < name.utf8ByteSize then .error .nameTooLong
      else
        match child? name entries with
        | some t => follow (here :: above) t rest
        | none => .error .notFound

/-- The entries with the one of a given name replaced. -/
def replaceEntry (name : String) (t : FileTree) :
    List (String × FileTree) → List (String × FileTree)
  | [] => [(name, t)]
  | (other, u) :: rest =>
    if other = name then (name, t) :: rest else (other, u) :: replaceEntry name t rest

/-- What stands where `t` is put and `old` was: a directory that is already there
stays. -/
def putOver (old t : FileTree) : FileTree :=
  match old, t with
  | dir entries, dir _ => dir entries
  | _, t => t

/-- The tree with `t` at the place that names lead to; missing directories are
made, and a file in the way is replaced. -/
def insert (t : FileTree) : List String → FileTree → FileTree
  | [], old => putOver old t
  | name :: rest, file _ => dir [(name, insert t rest empty)]
  | name :: rest, dir entries =>
    dir (replaceEntry name (insert t rest ((child? name entries).getD empty)) entries)

/-- The names on a path without those that lead to the same directory, and with
each step to the parent taken back together with the step before it. -/
def placeNames (path : String) : List String :=
  List.reverse <| (names path).foldl
    (fun steps name =>
      if name = "" ∨ name = "." then steps
      else if name = ".." then steps.tail
      else name :: steps)
    []

/-- The tree with `u` at a path. -/
def add (t : FileTree) (path : String) (u : FileTree) : FileTree :=
  insert u (placeNames path) t

/-- The directory with the given files and directories. -/
def ofFiles (files : List (String × FileTree)) : FileTree :=
  files.foldl (fun t (path, u) => t.add path u) empty

end FileTree

end BranchPrediction
