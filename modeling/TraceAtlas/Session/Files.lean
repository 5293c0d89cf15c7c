import TraceAtlas.Session.Basic

/-!
# Steps on table files

The file of a table is read, written, cut and removed behind the back of every handle. Writing makes
the directories and the file as they are needed, and answers the new length of the file. Directories
that were made stay, also when the step fails after that.
-/

namespace TraceAtlas.Session

def withDisk (s : Session) (disk : Disk) : Session := { s with shelf := { s.shelf with disk } }

/-- Replaces the disk if something could be done to it, and answers whether it could. -/
def tryDisk (act : Disk → Except IoFault Disk) : Step Bool := fun s =>
  match act s.shelf.disk with
  | .error _ => (.ok false, s)
  | .ok disk => (.ok true, s.withDisk disk)

/-- The bytes of the file of a table, if it can be read. -/
def fileBytes (table : String) : Step (Option (List UInt8)) := fun s =>
  (.ok (s.shelf.disk.read (FileTable.file rootPath table)).toOption, s)

/-- Changes a file whose directory exists, and answers its length if it could be written. -/
def rewriteFile (path : String) (change : List UInt8 → List UInt8) : Step (Option Nat) := fun s =>
  let written := do
    let disk ← s.shelf.disk.update path change
    let content ← disk.read path
    Except.ok (disk, content.length)
  match written with
  | .error _ => (.ok none, s)
  | .ok (disk, length) => (.ok (some length), s.withDisk disk)

/-- Changes the file of a table, and answers its length if it could be written. -/
def changeFile (table : String) (change : List UInt8 → List UInt8) : Step (Option Nat) := fun s =>
  let path := FileTable.file rootPath table
  match s.shelf.disk.makeDirectories (Disk.parent path) with
  | (.error _, disk) => (.ok none, s.withDisk disk)
  | (.ok (), disk) => rewriteFile path change (s.withDisk disk)

def replaceFile (table : String) (bytes : List UInt8) : Step (Option Nat) :=
  changeFile table fun _ => bytes

def extendFile (table : String) (bytes : List UInt8) : Step (Option Nat) :=
  changeFile table (· ++ bytes)

def appendFrame (table : String) (payload : List UInt8) : Step (Option Nat) :=
  changeFile table (· ++ Log.frame payload)

def cutFile (table : String) (n : Nat) : Step (Option Nat) :=
  changeFile table fun content => content.take (content.length - n)

def unlinkFile (table : String) : Step Bool :=
  tryDisk fun d => d.unlink (FileTable.file rootPath table)

/-- Makes a directory where the file of a table would be. -/
def occupyFile (table : String) : Step Bool := fun s =>
  let (made, disk) := s.shelf.disk.makeDirectories (FileTable.file rootPath table)
  (.ok made.toBool, s.withDisk disk)

/-- Writes a file where the directory of table files would be. -/
def blockDirectory : Step Bool := fun s =>
  match s.shelf.disk.makeDirectories rootPath with
  | (.error _, disk) => (.ok false, s.withDisk disk)
  | (.ok (), disk) =>
    tryDisk (·.update (FileTable.directory rootPath) fun _ => []) (s.withDisk disk)

end TraceAtlas.Session
