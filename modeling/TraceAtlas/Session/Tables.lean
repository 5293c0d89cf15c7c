import TraceAtlas.Session.Basic

/-!
# Steps on tables

Tables are used directly, without a registry: rows are created and listed, memory tables are looked
into, handles on files are opened by hand.
-/

namespace TraceAtlas.Session

/-- How a step gets at a table. -/
inductive TableArg where
  | opened (opener : Opener) (name : String)
  /-- A handle that was opened by hand. -/
  | handle (name : String)

/-- Opens a table, or finds the handle of a name. -/
def openTable (arg : TableArg) : Step TableRef := fun s =>
  match arg with
  | .handle name =>
    match s.shelf.named.get? name with
    | some ref => (.ok ref, s)
    | none => (.error .noSuchHandle, s)
  | .opened opener name =>
    let opened := s.shelf.openBy opener name
    (opened.ref.mapError .table, { s with shelf := opened.shelf }.note opened.notices)

/-- Opens a table and does something to it. -/
def onTable (arg : TableArg) (act : OpenTable → Except TableError α × OpenTable) : Step α :=
  fun s =>
    match s.openTable arg with
    | (.error e, s) => (.error e, s)
    | (.ok ref, s) =>
      let (answer, table) := act ⟨s.shelf, ref⟩
      (answer.mapError .table, { s with shelf := table.shelf })

def createRow (arg : TableArg) (entry : Entry) : Step RowKey :=
  onTable arg (EntryTable.create entry)

def listRows (arg : TableArg) : Step (String × List Row) :=
  onTable arg fun t =>
    let (rows, t) := EntryTable.rows t
    (rows.map fun rows => (EntryTable.name t, rows), t)

def invalidateTable (arg : TableArg) : Step Bool :=
  onTable arg fun t => (.ok true, EntryTable.invalidate t)

/-- Which memory tables a step looks into. -/
inductive MemoryArg where
  | faulty
  | plain

/-- The memory table of a name, if it was opened. -/
def memoryTable? (s : Session) (arg : MemoryArg) (name : String) : Option MemoryTable :=
  match arg with
  | .faulty => s.shelf.faulty.get? name
  | .plain => s.shelf.memory.get? name

/-- A memory table as it is, if it was opened. -/
def inspectTable (arg : MemoryArg) (name : String) : Step (Option MemoryTable) := fun s =>
  (.ok (s.memoryTable? arg name), s)

def removeRow (arg : MemoryArg) (name : String) (key : RowKey) : Step (Option Entry) := fun s =>
  match s.memoryTable? arg name with
  | none => (.error .noSuchTable, s)
  | some table =>
    let (entry, table) := table.remove key
    (.ok entry, { s with shelf := match arg with
      | .faulty => { s.shelf with faulty := s.shelf.faulty.insert name table }
      | .plain => { s.shelf with memory := s.shelf.memory.insert name table } })

/-- Opens a handle by hand and names it. -/
def openHandle (as table : String) : Step FileTable := fun s =>
  let opened := s.shelf.openNamed as table
  let s := { s with shelf := opened.shelf }.note opened.notices
  match opened.ref with
  | .error e => (.error (.table e), s)
  | .ok _ => (.ok { name := table, path := FileTable.file rootPath table }, s)

/-- Puts a new file factory in the place of one of the same name. -/
def renewFactory (name : String) : Step String := fun s =>
  (.ok rootPath, { s with shelf := s.shelf.renewFactory name })

def describeFactory (root : String) : String :=
  "FsStoreFactory \x7b root: " ++ Quoted.text root ++ " \x7d"

end TraceAtlas.Session
