/-!
# Entries

An entry is the identity under which a sub-space is persisted: the name of its address space and,
for a register bank, the execution context and the frame it belongs to. Entries without a context
carry the reserved key `Entry.noContext`. A row of an entry table is an entry under a row key.
-/

namespace TraceAtlas

/-- The identity of one sub-space. -/
structure Entry where
  space : String
  /-- The key of the owning context, or `Entry.noContext`. -/
  context : Int64
  /-- The level of the frame on the context's stack. -/
  frame : UInt32
deriving DecidableEq, Repr

namespace Entry

/-- The context key of entries that belong to no execution context. -/
def noContext : Int64 := -1

/-- The entry of a space that is tied to no execution context. -/
def unbound (space : String) : Entry := ⟨space, noContext, 0⟩

/-- The owning context, if the entry has one. -/
def context? (e : Entry) : Option Int64 := if e.context = noContext then none else some e.context

end Entry

/-- The key that a table gives a row when it creates it. -/
abbrev RowKey := Nat

def RowKey.text (key : RowKey) : String := "#" ++ toString key

abbrev Row := RowKey × Entry

end TraceAtlas
