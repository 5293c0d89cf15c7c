import TraceAtlas.Entry

/-!
# Address spaces

An address space is a partition of the storage of a traced target. Spaces are told apart by all
their fields and ordered by number first. An overlay is a space of its own that takes its kind
from a base and remembers the base's name; the sentinel `AddressSpace.noAddress` stands for the
absence of a space and has a reserved name.
-/

namespace TraceAtlas

/-- What a space holds. -/
inductive SpaceKind where
  | memory
  | register
  | noAddress
  | constant
  | unique
  | stack
deriving DecidableEq, Repr

/-- The place of a kind in the order of kinds. -/
def SpaceKind.rank : SpaceKind → Nat
  | .memory => 0
  | .register => 1
  | .noAddress => 2
  | .constant => 3
  | .unique => 4
  | .stack => 5

/-- A partition of storage. -/
structure AddressSpace where
  id : UInt32
  name : String
  kind : SpaceKind
  /-- The name of the space that this one overlays. -/
  base : Option String := none
deriving DecidableEq, Repr

/-- The name under which the sentinel space is persisted. -/
def noAddressName : String := "NO_ADDRESS_SPACE"

namespace AddressSpace

def noAddress : AddressSpace := ⟨0xffffffff, noAddressName, .noAddress, none⟩

/-- A named space layered on another; it takes the kind of its base. -/
def overlay (id : UInt32) (name : String) (base : AddressSpace) : AddressSpace :=
  ⟨id, name, base.kind, some base.name⟩

def isOverlay (s : AddressSpace) : Bool := s.base.isSome

def isMemory (s : AddressSpace) : Bool := s.kind == .memory

def isRegister (s : AddressSpace) : Bool := s.kind == .register

def isNoAddress (s : AddressSpace) : Bool := s.kind == .noAddress

/-- Whether sub-spaces can be kept for the space. -/
def isKeepable (s : AddressSpace) : Bool := s.isMemory || s.isRegister || s.isNoAddress

/-- The order of spaces: number, name, kind, and the base with none first. -/
def order (s t : AddressSpace) : Ordering :=
  (compare s.id t.id).then <| (compare s.name t.name).then <|
    (compare s.kind.rank t.kind.rank).then (compare s.base t.base)

instance : Ord AddressSpace := ⟨order⟩

end AddressSpace

/-- The name of the table that backs a sub-space. Underscores of the space's name are doubled, so a
single one behind it only ever starts the suffix of a register bank, which a context has. -/
def tableName (manager : String) (space : AddressSpace) (context : Int64) (frame : UInt32) :
    String :=
  let name := String.ofList (space.name.toList.flatMap fun c => if c = '_' then ['_', '_'] else [c])
  if space.isRegister ∧ context ≠ Entry.noContext then
    manager ++ "_" ++ name ++ "_" ++ toString context.toInt ++ "_" ++ toString frame.toNat
  else manager ++ "_" ++ name

example : tableName "Memory" ⟨1, "register", .register, none⟩ 12 3 = "Memory_register_12_3" := by
  decide
example : tableName "Memory" ⟨2, "ram", .memory, none⟩ 5 1 = "Memory_ram" := by decide
example : tableName "Memory" ⟨7, "register_1_0", .memory, none⟩ (-1) 0 =
    "Memory_register__1__0" := by decide

end TraceAtlas
