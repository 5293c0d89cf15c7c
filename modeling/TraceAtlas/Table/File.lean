import TraceAtlas.Notice
import TraceAtlas.Table.Basic
import TraceAtlas.Table.Disk
import TraceAtlas.Table.Log

/-!
# Tables in files

A table file is reached through handles. A handle keeps the rows of its last reading until it is
told to look again, and adds the rows it creates itself. A new row takes its key from the file and
not from the kept rows, so handles on one file never give the same key.

Opening a handle begins a file that is not there or empty with a header, and reads what is there.
-/

namespace TraceAtlas

/-- A handle on a table file. -/
structure FileTable where
  name : String
  path : String
  /-- The rows of the last reading, with those created since through this handle. -/
  kept : Option (List Row) := none
deriving DecidableEq

namespace FileTable

def directory (root : String) : String := Disk.join root "spaces"

def file (root table : String) : String := Disk.join (directory root) (table ++ ".log")

/-- Words a refusal of the disk at a path. -/
def onDisk (path : String) : Except IoFault α → Except TableError α :=
  Except.mapError (.io path)

def read (d : Disk) (path table : String) : Except TableError (List Row) := do
  Log.rows table (← onDisk path (d.read path))

def append (d : Disk) (path : String) (r : Record) : Except TableError Disk := do
  onDisk path (d.append path (← Log.frameOf r))

def describe (t : FileTable) : String :=
  "FsEntryStore \x7b table: " ++ Quoted.text t.name ++ ", path: " ++ Quoted.text t.path ++ " \x7d"

structure Opened where
  table : Except TableError FileTable
  disk : Disk
  notices : List Notice := []

def firstRead (d : Disk) (name path : String) (notices : List Notice) : Opened where
  table := (read d path name).map fun rows => ⟨name, path, some rows⟩
  disk := d
  notices := notices

/-- Opens a handle on a table below a root directory. -/
def openAt (d : Disk) (root name : String) : Opened :=
  match d.makeDirectories (directory root) with
  | (.error fault, d) => ⟨.error (.io (directory root) fault), d, []⟩
  | (.ok (), d) =>
    let path := file root name
    match onDisk path (d.isFresh path) with
    | .error e => ⟨.error e, d, []⟩
    | .ok false => firstRead d name path []
    | .ok true =>
      match append d path (.header schemaVersion) with
      | .error e => ⟨.error e, d, []⟩
      | .ok d => firstRead d name path [.tableCreated name path]

/-- The row that a handle creates for an entry, and the disk with it. -/
def createRow (d : Disk) (t : FileTable) (e : Entry) : Except TableError (RowKey × Disk) := do
  let key := Log.nextKey (← read d t.path t.name)
  .ok (key, ← append d t.path (.row key e))

/-- The rows that a handle answers with: those kept, or those of the file. -/
def rows (d : Disk) (t : FileTable) : Except TableError (List Row) :=
  match t.kept with
  | some rows => .ok rows
  | none => read d t.path t.name

def invalidate (t : FileTable) : FileTable := { t with kept := none }

end FileTable

/-- A handle together with the disk it works on. -/
structure FileOnDisk where
  disk : Disk
  table : FileTable

namespace FileOnDisk

/-- Creates a row; rows that the handle keeps grow with it. -/
def create (e : Entry) (t : FileOnDisk) : Except TableError RowKey × FileOnDisk :=
  match t.table.createRow t.disk e with
  | .error err => (.error err, t)
  | .ok (key, disk) =>
    (.ok key, ⟨disk, { t.table with kept := t.table.kept.map (· ++ [(key, e)]) }⟩)

/-- The rows that the handle answers with; it keeps them. -/
def rows (t : FileOnDisk) : Except TableError (List Row) × FileOnDisk :=
  match t.table.rows t.disk with
  | .error err => (.error err, t)
  | .ok rows => (.ok rows, { t with table := { t.table with kept := some rows } })

instance : EntryTable FileOnDisk where
  name t := t.table.name
  create := create
  rows := rows
  invalidate t := { t with table := t.table.invalidate }

end FileOnDisk
end TraceAtlas
