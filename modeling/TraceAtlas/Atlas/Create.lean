import TraceAtlas.Atlas.Basic
import TraceAtlas.Table.Basic

/-!
# Creating sub-spaces

A sub-space comes into being in two steps: its row is added to the entry table, then the factory
builds it for that row. If either step fails nothing is put in a slot; if only the second fails
the row stays. `memoryOrCreate` and `bankOrCreate` create what a slot lacks and otherwise answer
what it holds, so a slot is filled once.

Operations of an atlas answer a value or a refusal together with the atlas as it then is.
-/

namespace TraceAtlas

/-- The answer of an operation, and the atlas after it. -/
abbrev Answer (σ α : Type) := Except SpaceError α × Atlas σ

namespace Atlas

variable {σ : Type}

/-- Has the factory build the sub-space of a row. -/
def build (a : Atlas σ) (space : AddressSpace) (context : Option ExecutionContext) (slot : Slot) :
    Except TableError SubSpace × Atlas σ :=
  let (built, factory) := a.trace.factory.build space context slot
  (built, { a with trace := { a.trace with factory } })

/-- The slot of a row: its key, its entry and the name of its table. -/
def slotOf (a : Atlas σ) (space : AddressSpace) (key : RowKey) (entry : Entry) : Slot :=
  ⟨key, entry, tableName a.settings.name space entry.context entry.frame⟩

/-- Builds the sub-space of a row that is there. -/
def buildBound (a : Atlas σ) (space : AddressSpace) (context : Option ExecutionContext)
    (key : RowKey) (entry : Entry) : Answer σ (Option Bound) :=
  let slot := a.slotOf space key entry
  let (built, a) := a.build space context slot
  a.settle slot.table (built.map fun s => ⟨key, entry, s⟩)

variable [EntryTable σ]

/-- Adds a row for an entry and builds its sub-space. -/
def createBound (a : Atlas σ) (space : AddressSpace) (context : Option ExecutionContext)
    (entry : Entry) : Answer σ (Option Bound) :=
  let (created, table) := EntryTable.create entry a.table
  let a := { a with table }
  let name := tableName a.settings.name space entry.context entry.frame
  match created with
  | .error e => a.settle name (.error e)
  | .ok key => (a.note [.building name key]).buildBound space context key entry

/-- What a memory slot holds; an empty slot is filled. -/
def memoryOrCreate (a : Atlas σ) (space : AddressSpace) : Answer σ (Option SubSpace) :=
  match a.caches.memory.get? space with
  | some s => (.ok (some s), a)
  | none =>
    match a.createBound space none (.unbound space.name) with
    | (.error e, a) => (.error e, a)
    | (.ok none, a) => (.ok none, a)
    | (.ok (some b), a) => (.ok (some b.space), a.withCaches (a.caches.putMemory space b))

/-- What the register slot of a frame holds; an empty slot is filled. -/
def bankOrCreate (a : Atlas σ) (context : ExecutionContext) (frame : UInt32) :
    Answer σ (Option SubSpace) :=
  match a.caches.registers.get? ⟨context.key, frame⟩ with
  | some s => (.ok (some s), a)
  | none =>
    let space := a.settings.language.registerSpace
    match a.createBound space (some context) ⟨space.name, context.key, frame⟩ with
    | (.error e, a) => (.error e, a)
    | (.ok none, a) => (.ok none, a)
    | (.ok (some b), a) =>
      (.ok (some b.space), a.withCaches (a.caches.putRegister ⟨context.key, frame⟩ b))

end Atlas
end TraceAtlas
