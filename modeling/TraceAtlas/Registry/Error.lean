import TraceAtlas.Table.Error

/-!
# Why a registry refuses

A lookup or a load is refused for a space or a context that the trace does not stand for, or
because something that is persisted is under another version of the schema. Other errors of tables
never reach the caller this way.
-/

namespace TraceAtlas

/-- Why a registry refuses. -/
inductive SpaceError where
  /-- The directory does not vouch for the space. -/
  | foreignSpace (name : String)
  /-- The space is of a kind that has no sub-spaces. -/
  | unkeepableSpace (name : String)
  /-- The trace is addressed through objects and the context has none. -/
  | contextWithoutObject (context : Int64)
  /-- The context is not one of the trace. -/
  | notMine (context : Int64)
  /-- Something is under another version of the schema. -/
  | schema (table : String) (source : TableError)
  /-- The entry table could not be opened. -/
  | cannotOpen (table : String) (source : TableError)
deriving DecidableEq, Repr

def SpaceError.message : SpaceError → String
  | foreignSpace name => "invalid argument: space " ++ name ++ " is not part of this trace"
  | unkeepableSpace name =>
    "invalid argument: space " ++ name ++ " must be a memory, register, or no-address space"
  | contextWithoutObject context =>
    "invalid argument: context " ++ toString context.toInt ++
      " has no backing object in an object-addressed trace"
  | notMine context =>
    "execution context " ++ toString context.toInt ++ " does not belong to this trace"
  | schema table source =>
    "schema invariant violated for '" ++ table ++ "': " ++ source.message
  | cannotOpen table source =>
    "failed to open space table '" ++ table ++ "': " ++ source.message

end TraceAtlas
