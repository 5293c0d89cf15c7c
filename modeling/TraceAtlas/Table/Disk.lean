import TraceAtlas.SortedMap
import TraceAtlas.Table.Error

/-!
# A disk

A tree of directories and files, as far as tables need one. A path is a text whose segments are
separated by slashes; `Disk.locate` follows it from the top through directories that must exist and
answers the place of its last segment, which need not exist. Every operation refuses with the fault
that comes first on the way.

An operation that is refused leaves the disk alone, except that `Disk.makeDirectories` keeps the
directories it has made before the fault.
-/

namespace TraceAtlas

/-- What stands at a place of a disk. -/
inductive DiskNode where
  | file (content : List UInt8)
  | directory
deriving DecidableEq, Repr

/-- A place: the names of the directories on the way and the last name. -/
abbrev Place := List String

/-- Directories and files by their places; the top directory always exists. -/
structure Disk where
  nodes : SortedMap Place DiskNode := .empty
deriving DecidableEq

namespace Disk

/-- The characters up to the first slash, and those of the segments behind it. -/
def cut : List Char → List Char × List (List Char)
  | [] => ([], [])
  | c :: cs =>
    let (segment, more) := cut cs
    if c = '/' then ([], segment :: more) else (c :: segment, more)

def segments (path : String) : List String :=
  let (first, more) := cut path.toList
  (first :: more).map String.ofList

example : segments "spaces/a//b.log" = ["spaces", "a", "", "b.log"] := by decide

/-- A path below a directory; an absolute path stays as it is. -/
def join (directory path : String) : String :=
  if path.toList.head? = some '/' then path else directory ++ "/" ++ path

/-- The path of the directory in which a path stands: all segments but the last, without those at
the end that lead nowhere. -/
def parent (path : String) : String :=
  let before := (segments path).dropLast.reverse.dropWhile fun s => s = "" ∨ s = "."
  "/".intercalate before.reverse

example : parent "spaces/a//./b.log" = "spaces/a" := by decide

/-- The longest name of a file, in bytes. -/
def maxName : Nat := 255

/-- The longest path, in bytes. -/
def maxPath : Nat := 4095

def node? (d : Disk) (place : Place) : Option DiskNode :=
  match place with
  | [] => some .directory
  | place => d.nodes.get? place

def follow (d : Disk) (place : Place) : List String → Except IoFault Place
  | [] => .ok place
  | segment :: rest =>
    if segment = "" ∨ segment = "." then follow d place rest
    else if segment = ".." then follow d place.dropLast rest
    else if maxName < segment.utf8ByteSize then .error .nameTooLong
    else if rest = [] then .ok (place ++ [segment])
    else
      match d.node? (place ++ [segment]) with
      | none => .error .notFound
      | some (.file _) => .error .notDirectory
      | some .directory => follow d (place ++ [segment]) rest

/-- The segments of a path that is neither too long nor holds a character that ends it. -/
def checkPath (path : String) : Except IoFault (List String) :=
  if '\x00' ∈ path.toList then .error .nulInName
  else if maxPath < path.utf8ByteSize then .error .nameTooLong
  else .ok (segments path)

def locate (d : Disk) (path : String) : Except IoFault Place := do
  d.follow [] (← checkPath path)

def read (d : Disk) (path : String) : Except IoFault (List UInt8) := do
  match d.node? (← d.locate path) with
  | none => .error .notFound
  | some .directory => .error .isDirectory
  | some (.file content) => .ok content

/-- Whether a path names nothing or an empty file. -/
def isFresh (d : Disk) (path : String) : Except IoFault Bool :=
  match d.locate path with
  | .error .notFound => .ok true
  | .error fault => .error fault
  | .ok place =>
    match d.node? place with
    | none => .ok true
    | some .directory => .ok false
    | some (.file content) => .ok content.isEmpty

/-- Puts a file with the content that `change` makes of the old one, or of nothing. -/
def update (d : Disk) (path : String) (change : List UInt8 → List UInt8) : Except IoFault Disk := do
  let place ← d.locate path
  match d.node? place with
  | none => .ok ⟨d.nodes.insert place (.file (change []))⟩
  | some .directory => .error .isDirectory
  | some (.file content) => .ok ⟨d.nodes.insert place (.file (change content))⟩

/-- Adds bytes at the end of a file, which comes into being if it is not there. -/
def append (d : Disk) (path : String) (bytes : List UInt8) : Except IoFault Disk :=
  d.update path (· ++ bytes)

/-- Makes the directories that segments name from a place on, one after the other up to the first
fault. -/
def makeFrom (d : Disk) (place : Place) : List String → Except IoFault Unit × Disk
  | [] => (.ok (), d)
  | segment :: rest =>
    if segment = "" ∨ segment = "." then makeFrom d place rest
    else if segment = ".." then makeFrom d place.dropLast rest
    else if maxName < segment.utf8ByteSize then (.error .nameTooLong, d)
    else
      match d.node? (place ++ [segment]) with
      | none => makeFrom ⟨d.nodes.insert (place ++ [segment]) .directory⟩ (place ++ [segment]) rest
      | some .directory => makeFrom d (place ++ [segment]) rest
      | some (.file _) => (.error (if rest = [] then .exists else .notDirectory), d)

/-- Makes a directory and those on the way to it, where they do not exist yet. -/
def makeDirectories (d : Disk) (path : String) : Except IoFault Unit × Disk :=
  match checkPath path with
  | .error fault => (.error fault, d)
  | .ok segments => d.makeFrom [] segments

def unlink (d : Disk) (path : String) : Except IoFault Disk := do
  let place ← d.locate path
  match d.node? place with
  | none => .error .notFound
  | some .directory => .error .isDirectory
  | some (.file _) => .ok ⟨d.nodes.erase place⟩

end Disk
end TraceAtlas
