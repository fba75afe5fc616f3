/-!
# Disks and paths

A disk holds files and directories, each at a spot: the names that lead to it from the root. One of
the directories is the working directory. A path is a list of names that are followed from there, or
from the root; `..` goes one directory up. `Disk.locate` says what lies at the end of a path.
-/

namespace LoxTree

/-- Where something lies: the names that lead to it from the root. -/
abbrev Spot := List String

/-- A path. -/
structure FilePath where
  /-- The slashes at the front of a path from the root. -/
  root : String
  /-- The names on the way; none of them is empty or a single dot. -/
  names : List String
  deriving DecidableEq, Repr

namespace FilePath

/-- The root that a path text names: two slashes are not the same root as one or more than two. -/
def rootOf : List Char → String
  | '/' :: '/' :: '/' :: _ => "/"
  | '/' :: '/' :: _ => "//"
  | '/' :: _ => "/"
  | _ => ""

/-- The path that a text names. Doubled slashes and single dots make no difference. -/
def ofText (text : String) : FilePath where
  root := rootOf text.toList
  names := ((text.toList.splitOn '/').map String.ofList).filter fun name =>
    name != "" && name != "."

/-- The text of a path. -/
def text (p : FilePath) : String :=
  if p.root.isEmpty && p.names.isEmpty then "." else p.root ++ "/".intercalate p.names

/-- The path with something added to its last name. -/
def extend (p : FilePath) (ending : String) : FilePath :=
  match p.names.getLast? with
  | some name => { p with names := p.names.dropLast ++ [name ++ ending] }
  | none => p

end FilePath

/-- Files and directories. -/
structure Disk where
  /-- The working directory. -/
  home : Spot
  /-- The directories; the root is always one. -/
  directories : List Spot
  files : List (Spot × ByteArray)

/-- What lies at the end of a path. -/
inductive Place where
  | file (spot : Spot) (bytes : ByteArray)
  | directory
  /-- Nothing yet, in a directory that is there. -/
  | vacant (spot : Spot)
  /-- A name or the whole path is too long to be looked up. -/
  | unnameable
  | nowhere

namespace Disk

/-- A spot and the directories that lead to it. -/
def leading (spot : Spot) : List Spot :=
  (List.range (spot.length + 1)).map spot.take

/-- The disk with the given working directory and files, and with the directories that lead to
them. -/
def ofFiles (home : Spot) (files : List (Spot × ByteArray)) : Disk where
  home := home
  directories := leading home ++ files.flatMap fun (spot, _) => leading spot.dropLast
  files := files

/-- The contents of the file at a spot. -/
def contents? (disk : Disk) (spot : Spot) : Option ByteArray :=
  disk.files.lookup spot

/-- The disk with the file at a spot replaced or added. -/
def put (disk : Disk) (spot : Spot) (bytes : ByteArray) : Disk :=
  { disk with files := (spot, bytes) :: disk.files.filter fun (s, _) => s != spot }

/-- Whether a directory lies at a spot. -/
def isDirectory (disk : Disk) (spot : Spot) : Bool :=
  spot.isEmpty || disk.directories.contains spot

/-- The most bytes that a name may have. -/
def maxNameBytes : Nat :=
  255

/-- The most bytes that a path may have. -/
def maxPathBytes : Nat :=
  4095

/-- Follows names from a directory. -/
def follow (disk : Disk) (directory : Spot) : List String → Place
  | [] => .directory
  | name :: rest =>
    if name = ".." then follow disk directory.dropLast rest
    else if maxNameBytes < name.utf8ByteSize then .unnameable
    else
      let spot := directory ++ [name]
      match disk.contents? spot with
      | some bytes => if rest.isEmpty then .file spot bytes else .nowhere
      | none =>
        if disk.isDirectory spot then follow disk spot rest
        else if rest.isEmpty then .vacant spot
        else .nowhere

/-- What lies at the end of a path. -/
def locate (disk : Disk) (p : FilePath) : Place :=
  if maxPathBytes < p.text.utf8ByteSize then .unnameable
  else disk.follow (if p.root.isEmpty then disk.home else []) p.names

/-- The files that are new or have other contents than before. -/
def changes (before after : Disk) : List (Spot × ByteArray) :=
  after.files.filter fun (spot, bytes) => before.contents? spot != some bytes

/-- The changed files by their paths from the working directory, in the order of the paths. -/
def changedPaths (before after : Disk) : List (String × ByteArray) :=
  let changed := (before.changes after).map fun (spot, bytes) =>
    ("/".intercalate (spot.drop before.home.length), bytes)
  changed.mergeSort fun a b => a.1 ≤ b.1

end Disk

end LoxTree
