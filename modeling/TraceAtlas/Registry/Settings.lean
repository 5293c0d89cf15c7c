import TraceAtlas.Space

/-!
# Settings of a registry

A registry is made for a manager and for a language, the architecture of the traced target. It may
be made without the contexts of the trace, and then keeps no register banks, or without its
objects.
-/

namespace TraceAtlas

structure Language where
  name : String
  /-- The space that all register banks share. -/
  registerSpace : AddressSpace
deriving DecidableEq, Repr

/-- The architecture of all traces so far. -/
def Language.standard : Language := ⟨"x86:LE:64:default", ⟨1, "register", .register, none⟩⟩

/-- Who is told of table errors that do not concern the caller. -/
inductive ErrorHook where
  /-- The trace records them. -/
  | record
  /-- They are only noted. -/
  | note
deriving DecidableEq, Repr

/-- What a registry is told when it is made. -/
structure Settings where
  /-- The manager's name, in front of every table name. -/
  name : String
  eager : Bool := true
  language : Language := .standard
  /-- Whether the registry knows the contexts of the trace; without them it keeps no register
  banks. -/
  contexts : Bool := true
  objects : Bool := true
  hook : ErrorHook := .record
deriving DecidableEq, Repr

def Settings.entryTable (s : Settings) : String := s.name ++ "Spaces"

end TraceAtlas
