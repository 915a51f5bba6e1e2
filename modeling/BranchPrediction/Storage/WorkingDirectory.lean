import BranchPrediction.Storage.FileTree
/-!
# Working directories

A path is resolved from a working directory or, if it starts with a slash, from
the root of the system. The working directory stands in the directory for
temporary files, so that enough steps to the parent lead to the root. Of the
system only what nearly all systems have in common is known.

A path holds no NUL character, is not empty and is limited in size; these are
checked in this order and before any name is looked up.

## Main definitions

* `FileTree.root`: the system around the working directory
* `FileTree.find`: what a path leads to
* `FileTree.readText`: the text of the file that a path leads to
-/

namespace BranchPrediction

namespace FileTree

/-! ## The system -/

/-- The directories that a system has. -/
def systemDirectories : List String :=
  ["/bin", "/boot", "/dev/pts", "/dev/shm", "/etc/opt", "/home", "/lib", "/media", "/mnt", "/opt",
    "/proc", "/root", "/run", "/sbin", "/srv", "/sys", "/tmp", "/usr/bin", "/usr/include",
    "/usr/lib", "/usr/local/bin", "/usr/local/lib", "/usr/sbin", "/usr/share", "/usr/src",
    "/var/cache", "/var/lib", "/var/local", "/var/lock", "/var/log", "/var/opt", "/var/run",
    "/var/spool", "/var/tmp"]

/-- The files that a system has: a device that reads as empty, and the tables of
users, groups and hosts. -/
def systemFiles : List (String × String) :=
  [("/dev/null", ""), ("/etc/passwd", "root:x:0:0:root:/root:/bin/sh\n"),
    ("/etc/group", "root:x:0:\n"), ("/etc/hosts", "127.0.0.1 localhost\n")]

/-- The root of the system. -/
def root : FileTree :=
  ofFiles <| systemDirectories.map (·, empty) ++
    systemFiles.map fun (path, text) => (path, ofText text)

/-- The directories above a working directory, the nearest one first. -/
def surroundings : List FileTree :=
  [empty, root]

/-! ## Resolving paths -/

/-- What a path leads to from the working directory `t`. -/
def find (t : FileTree) (path : String) : Except ReadError FileTree :=
  if path.contains '\x00' then .error .nulInPath
  else if path = "" then .error .notFound
  else if maxPathBytes < path.utf8ByteSize then .error .nameTooLong
  else if path.startsWith "/" then follow [] root (names path)
  else follow surroundings t (names path)

/-- The text of the file that a path leads to. -/
def readText (t : FileTree) (path : String) : Except ReadError String := do
  match ← t.find path with
  | dir _ => throw .isDirectory
  | file content =>
    match String.fromUTF8? content with
    | some text => return text
    | none => throw .invalidText

end FileTree

end BranchPrediction
