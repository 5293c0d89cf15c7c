import TraceAtlas.Table.File
import TraceAtlas.Table.Memory

/-!
# The shelf of open tables

A shelf holds every table of a session: faulty and plain tables in memory, which are shared by all
who open a table of the same name, and handles on table files of one disk. File factories open
each table once and keep the handle; other handles are opened by hand.

A `TableRef` points at one table of the shelf. It keeps pointing there when its factory is
replaced, and `OpenTable`, a reference with its shelf, is itself an entry table.
-/

namespace TraceAtlas

/-- The directory under which a session keeps its files. -/
def rootPath : String := "<root>"

inductive Opener where
  | faulty
  | memory
  /-- The file factory of that name. -/
  | files (factory : String)
deriving DecidableEq, Repr

/-- One table of a shelf. -/
inductive TableRef where
  | faulty (name : String)
  | memory (name : String)
  /-- A handle by its number, with the name and the path it was opened with. -/
  | file (handle : Nat) (name path : String)
deriving DecidableEq, Repr

structure Shelf where
  faulty : SortedMap String MemoryTable := .empty
  /-- The plan that all faulty tables share. -/
  plan : FaultPlan := []
  memory : SortedMap String MemoryTable := .empty
  disk : Disk := {}
  /-- The handles on files by their numbers. -/
  handles : SortedMap Nat FileTable := .empty
  /-- The tables that each file factory has opened. -/
  factories : SortedMap String (SortedMap String TableRef) := .empty
  /-- The handles that were opened by hand, by name. -/
  named : SortedMap String TableRef := .empty

namespace Shelf

/-- The memory table of a name, which is empty if nobody has opened it. -/
def tableIn (tables : SortedMap String MemoryTable) (name : String) : MemoryTable :=
  (tables.get? name).getD { name }

/-- Opens a memory table, unless somebody has. -/
def openIn (tables : SortedMap String MemoryTable) (name : String) : SortedMap String MemoryTable :=
  tables.insert name (tableIn tables name)

/-- The state of the handle of a number. -/
def handle (s : Shelf) (number : Nat) (name path : String) : FileTable :=
  (s.handles.get? number).getD { name, path }

structure Opened where
  ref : Except TableError TableRef
  shelf : Shelf
  notices : List Notice := []

def openFile (s : Shelf) (name : String) : Opened :=
  let opened := FileTable.openAt s.disk rootPath name
  let s := { s with disk := opened.disk }
  match opened.table with
  | .error e => ⟨.error e, s, opened.notices⟩
  | .ok table =>
    let number := s.handles.size
    ⟨.ok (.file number table.name table.path),
      { s with handles := s.handles.insert number table }, opened.notices⟩

/-- Opens a handle by hand, under a name of its own. An error leaves an older handle of that name.
-/
def openNamed (s : Shelf) (handle table : String) : Opened :=
  let opened := s.openFile table
  match opened.ref with
  | .error _ => opened
  | .ok ref =>
    { opened with shelf := { opened.shelf with named := opened.shelf.named.insert handle ref } }

/-- The tables that a file factory has opened. -/
def factory (s : Shelf) (name : String) : SortedMap String TableRef :=
  (s.factories.get? name).getD .empty

/-- Puts a new file factory in the place of one of the same name. -/
def renewFactory (s : Shelf) (name : String) : Shelf :=
  { s with factories := s.factories.insert name .empty }

/-- Opens a table, or finds it open. -/
def openBy (s : Shelf) (opener : Opener) (name : String) : Opened :=
  match opener with
  | .faulty => ⟨.ok (.faulty name), { s with faulty := openIn s.faulty name }, []⟩
  | .memory => ⟨.ok (.memory name), { s with memory := openIn s.memory name }, []⟩
  | .files factory =>
    match (s.factory factory).get? name with
    | some ref => ⟨.ok ref, s, []⟩
    | none =>
      let opened := s.openFile name
      match opened.ref with
      | .error _ => opened
      | .ok ref =>
        let tables := (s.factory factory).insert name ref
        { opened with shelf :=
            { opened.shelf with factories := opened.shelf.factories.insert factory tables } }

end Shelf

structure OpenTable where
  shelf : Shelf
  ref : TableRef

namespace OpenTable

/-- Does something to the table that the reference points at, in place. -/
def act (t : OpenTable) (onFaulty : FaultyTable → α × FaultyTable)
    (onMemory : MemoryTable → α × MemoryTable) (onFile : FileOnDisk → α × FileOnDisk) :
    α × OpenTable :=
  match t.ref with
  | .faulty name =>
    let (x, ⟨table, plan⟩) := onFaulty ⟨Shelf.tableIn t.shelf.faulty name, t.shelf.plan⟩
    (x, { t with shelf := { t.shelf with faulty := t.shelf.faulty.insert name table, plan } })
  | .memory name =>
    let (x, table) := onMemory (Shelf.tableIn t.shelf.memory name)
    (x, { t with shelf := { t.shelf with memory := t.shelf.memory.insert name table } })
  | .file number name path =>
    let (x, ⟨disk, table⟩) := onFile ⟨t.shelf.disk, t.shelf.handle number name path⟩
    (x, { t with shelf := { t.shelf with disk, handles := t.shelf.handles.insert number table } })

def name (t : OpenTable) : String :=
  match t.ref with
  | .faulty name => name
  | .memory name => name
  | .file _ name _ => name

instance : EntryTable OpenTable where
  name := name
  create e t := t.act (EntryTable.create e) (EntryTable.create e) (EntryTable.create e)
  rows t := t.act EntryTable.rows EntryTable.rows EntryTable.rows
  invalidate t :=
    (t.act (fun x => ((), EntryTable.invalidate x)) (fun x => ((), EntryTable.invalidate x))
      (fun x => ((), EntryTable.invalidate x))).2

end OpenTable
end TraceAtlas
