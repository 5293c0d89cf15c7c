import TraceAtlas.SortedMap
import TraceAtlas.Table.Basic

/-!
# Tables in memory

A memory table lists its rows in key order and hands out keys one after the other; the key of a
removed row is not given again. A `FaultPlan` makes operations fail on purpose: it says for each of
the next operations whether it fails and how, and after that everything succeeds. A `FaultyTable` is
a memory table whose creations follow such a plan.
-/

namespace TraceAtlas

structure MemoryTable where
  name : String
  stored : SortedMap RowKey Entry := .empty
  nextKey : RowKey := 0
  /-- How often the table was told to look again. -/
  invalidations : Nat := 0
deriving DecidableEq

namespace MemoryTable

def create (t : MemoryTable) (e : Entry) : RowKey × MemoryTable :=
  (t.nextKey, { t with stored := t.stored.insert t.nextKey e, nextKey := t.nextKey + 1 })

def rows (t : MemoryTable) : List Row := t.stored.entries

/-- The entry under a key, and the table without that row. -/
def remove (t : MemoryTable) (key : RowKey) : Option Entry × MemoryTable :=
  (t.stored.get? key, { t with stored := t.stored.erase key })

/-- Counts a request to look again; there is nothing to forget. -/
def invalidate (t : MemoryTable) : MemoryTable := { t with invalidations := t.invalidations + 1 }

def size (t : MemoryTable) : Nat := t.stored.size

def describe (t : MemoryTable) : String :=
  "MemEntryStore \x7b table: " ++ Quoted.text t.name ++ ", rows: " ++ toString t.size ++ " \x7d"

instance : EntryTable MemoryTable where
  name := MemoryTable.name
  create e t := (.ok (t.create e).1, (t.create e).2)
  rows t := (.ok t.rows, t)
  invalidate := MemoryTable.invalidate

end MemoryTable

/-! ### Failures on purpose -/

/-- A failure on purpose: the error it gives on something of the given name. -/
structure Fault where
  error : String → TableError

namespace Fault

def io : Fault := ⟨fun what => .io ("memory://" ++ what) .injected⟩

/-- The schema is one version too new. -/
def version : Fault := ⟨fun what => .version what schemaVersion (schemaVersion + 1)⟩

end Fault

/-- For each of the next operations, whether and how it fails; later ones succeed. -/
abbrev FaultPlan := List (Option Fault)

/-- A table in memory with a plan for its creations. -/
structure FaultyTable where
  table : MemoryTable
  plan : FaultPlan := []

namespace FaultyTable

/-- Adds a row unless the plan has a failure for it. -/
def create (e : Entry) (t : FaultyTable) : Except TableError RowKey × FaultyTable :=
  match t.plan with
  | some fault :: plan => (.error (fault.error t.table.name), { t with plan })
  | plan =>
    let (key, table) := t.table.create e
    (.ok key, ⟨table, plan.tail⟩)

instance : EntryTable FaultyTable where
  name t := t.table.name
  create := create
  rows t := (.ok t.table.rows, t)
  invalidate t := { t with table := t.table.invalidate }

end FaultyTable
end TraceAtlas
