import TraceAtlas.SubSpace

/-!
# Slots and bindings

What a registry knows is kept in `Caches`: the sub-space in each memory slot, which is an address
space, and in each register slot, which is a frame of a context; and for every row it has met a
binding to the entry it then had and the sub-space built for it.

A slot is only ever filled together with the binding of the row. Bindings outlive the slots, so
that a reload can find a sub-space again.
-/

namespace TraceAtlas

/-- The slot of a register bank: a frame of a context. -/
structure Bank where
  context : Int64
  frame : UInt32
deriving DecidableEq, Repr

instance : Ord Bank := ⟨fun a b => (compare a.context b.context).then (compare a.frame b.frame)⟩

/-- The slot of a sub-space found through an object, for a frame. -/
structure ObjectSlot where
  object : ObjectId
  frame : UInt32
deriving DecidableEq, Repr

instance : Ord ObjectSlot :=
  ⟨fun a b => (compare a.object b.object).then (compare a.frame b.frame)⟩

/-- A sub-space and the entry of its row. -/
structure Binding where
  entry : Entry
  space : SubSpace
deriving DecidableEq, Repr

/-- A sub-space with the row it stands for. -/
structure Bound where
  key : RowKey
  entry : Entry
  space : SubSpace
deriving DecidableEq, Repr

/-- The slots of a registry and the rows it knows. -/
structure Caches where
  memory : SortedMap AddressSpace SubSpace := .empty
  registers : SortedMap Bank SubSpace := .empty
  bindings : SortedMap RowKey Binding := .empty
deriving DecidableEq, Repr

namespace Caches

/-- The sub-space bound to a row, if the row still has the entry it was bound with. -/
def binding? (c : Caches) (key : RowKey) (entry : Entry) : Option SubSpace :=
  match c.bindings.get? key with
  | some b => if b.entry = entry then some b.space else none
  | none => none

def bind (c : Caches) (b : Bound) : Caches :=
  { c with bindings := c.bindings.insert b.key ⟨b.entry, b.space⟩ }

def putMemory (c : Caches) (space : AddressSpace) (b : Bound) : Caches :=
  { c.bind b with memory := c.memory.insert space b.space }

def putRegister (c : Caches) (bank : Bank) (b : Bound) : Caches :=
  { c.bind b with registers := c.registers.insert bank b.space }

/-- Empties all slots; bindings stay. -/
def clearSlots (c : Caches) : Caches := { c with memory := .empty, registers := .empty }

/-- Forgets the bindings of all rows but the given ones. -/
def keepBindings (c : Caches) (keys : List RowKey) : Caches :=
  { c with bindings := c.bindings.keepKeys keys.contains }

/-- The sub-spaces in memory slots, in the order of spaces. -/
def memorySpaces (c : Caches) : List SubSpace := c.memory.values

def registerSpaces (c : Caches) : List SubSpace := c.registers.values

/-- All sub-spaces in slots, those of memory slots first. -/
def spaces (c : Caches) : List SubSpace := c.memorySpaces ++ c.registerSpaces

end Caches

end TraceAtlas
