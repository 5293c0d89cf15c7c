import TraceAtlas.Object.Path
import TraceAtlas.SortedMap
import TraceAtlas.Space
import TraceAtlas.Text.Quoted

/-!
# Execution contexts and what is asked of them

An execution context is a thread of the traced target. Register banks belong to a frame of a
context, or to an object of the trace; a `RegisterKey` says which, and the other types here are
the ways in which a caller names a sub-space. Contexts live in a `ContextDirectory`, which owns a
context only if it is exactly the one filed under its key.
-/

namespace TraceAtlas

structure ExecutionContext where
  key : Int64
  name : String
  /-- The object that stands for the context in a trace addressed through objects. -/
  object : Option ObjectRef := none
deriving DecidableEq, Repr

/-- How a register bank is identified. -/
inductive RegisterKey where
  | frame (context : ExecutionContext) (level : UInt32)
  | object (object : ObjectRef) (level : UInt32)
deriving DecidableEq, Repr

/-- A frame: an object that stands for it, or a level on the stack of a context. -/
inductive StackFrame where
  | object (object : ObjectRef)
  | level (context : ExecutionContext) (level : UInt32)
deriving DecidableEq, Repr

/-- What a caller asks for: a space, or a frame of a context. -/
structure SpaceRequest where
  space : AddressSpace
  context : Option ExecutionContext := none
  frame : UInt32 := 0
deriving DecidableEq, Repr

/-! ### Descriptions -/

def CanonicalPath.describe (p : CanonicalPath) : String :=
  "CanonicalPath([" ++ ", ".intercalate (p.keys.map Quoted.text) ++ "])"

def ObjectRef.describe (o : ObjectRef) : String :=
  "ObjectRef \x7b id: ObjectId(" ++ toString o.id ++ "), path: " ++ o.path.describe ++ " \x7d"

def ExecutionContext.describe (c : ExecutionContext) : String :=
  let object := match c.object with
    | some o => "Some(" ++ o.describe ++ ")"
    | none => "None"
  "ExecutionContext \x7b key: " ++ toString c.key.toInt ++ ", name: " ++ Quoted.text c.name ++
    ", object: " ++ object ++ " \x7d"

def RegisterKey.describe : RegisterKey → String
  | .frame c level =>
    "ByContextFrame \x7b context: " ++ c.describe ++ ", frame_level: " ++
      toString level.toNat ++ " \x7d"
  | .object o level =>
    "ByObject \x7b object: " ++ o.describe ++ ", frame_level: " ++
      toString level.toNat ++ " \x7d"

/-! ### The directory of contexts -/

/-- The contexts of a trace by their keys. -/
abbrev ContextDirectory := SortedMap Int64 ExecutionContext

namespace ContextDirectory

/-- Files a context under its key, in place of one that has the same key. -/
def add (d : ContextDirectory) (c : ExecutionContext) : ContextDirectory := d.insert c.key c

def context (d : ContextDirectory) (key : Int64) : Option ExecutionContext := d.get? key

/-- Whether the directory handed out this very context. -/
def owns (d : ContextDirectory) (c : ExecutionContext) : Bool := context d c.key == some c

end ContextDirectory
end TraceAtlas
