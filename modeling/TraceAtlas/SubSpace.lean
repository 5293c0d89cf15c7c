import TraceAtlas.Context
import TraceAtlas.Table.Memory

/-!
# Sub-spaces and the factory that builds them

A sub-space is the live object behind one row of an entry table. It knows the row it was built
for, the space and the context it was built with, and has a serial number of its own: two
sub-spaces are the same object exactly if their serial numbers agree.

The factory numbers the sub-spaces it builds and remembers which of them were told to forget what
they had read. It can be given a plan of failures.
-/

namespace TraceAtlas

/-- The row that backs a sub-space, and the name of the sub-space's own table. -/
structure Slot where
  key : RowKey
  entry : Entry
  table : String
deriving DecidableEq, Repr

/-- A live sub-space. -/
structure SubSpace where
  serial : Nat
  space : AddressSpace
  /-- The key of the context it was built with. -/
  context : Option Int64
  slot : Slot
deriving DecidableEq, Repr

structure Factory where
  /-- How many sub-spaces were built. -/
  built : Nat := 0
  /-- The tables of the sub-spaces, in the order in which they were built. -/
  tables : List String := []
  /-- The serial numbers of sub-spaces that were told to forget, one for each time. -/
  forgotten : List Nat := []
  plan : FaultPlan := []

namespace Factory

/-- Builds the sub-space of a row, unless the plan has a failure for it. -/
def build (f : Factory) (space : AddressSpace) (context : Option ExecutionContext) (slot : Slot) :
    Except TableError SubSpace × Factory :=
  match f.plan with
  | some fault :: plan => (.error (fault.error slot.table), { f with plan })
  | plan =>
    (.ok ⟨f.built, space, context.map (·.key), slot⟩,
      { f with built := f.built + 1, tables := f.tables ++ [slot.table], plan := plan.tail })

/-- Tells sub-spaces to forget what they have read. -/
def forget (f : Factory) (spaces : List SubSpace) : Factory :=
  { f with forgotten := spaces.map (·.serial) ++ f.forgotten }

/-- How often the sub-space of a serial number was told to forget. -/
def forgets (f : Factory) (serial : Nat) : Nat := f.forgotten.count serial

end Factory
end TraceAtlas
