import TraceAtlas.Atlas.Basic
import TraceAtlas.Session.Shelf

/-!
# Sessions

A session is a trace with a shelf of tables and any number of named registries, driven step by
step. Steps name spaces, objects and registries; a name that means nothing is a failure of the
step and of nothing else. `Session.perform` runs a step and answers with it what was noted and
reported on the way.
-/

namespace TraceAtlas

inductive Failure where
  | table (error : TableError)
  | space (error : SpaceError)
  | noSuchSpace
  | noSuchRegistry
  | noSuchHandle
  | noSuchTable
  | noSuchObject
deriving DecidableEq

/-- A registry of a session and the table it works on. -/
structure Member where
  registry : Registry
  table : TableRef

/-- Everything a session owns. -/
structure Session where
  trace : Trace := {}
  shelf : Shelf := {}
  objects : SortedMap String ObjectRef := .empty
  registries : SortedMap String Member := .empty
  /-- The sub-spaces that any step has answered, by serial number. -/
  held : SortedMap Nat SubSpace := .empty
  /-- How many errors were reported in earlier steps. -/
  reported : Nat := 0

/-- A step: an answer or a failure, and the session after it. -/
abbrev Session.Step (α : Type) := Session → Except Failure α × Session

/-! ### Arguments -/

/-- A space by name or by itself. -/
inductive SpaceArg where
  | named (name : String)
  | inline (space : AddressSpace)

/-- An object by name or by itself. -/
inductive ObjectArg where
  | named (name : String)
  | inline (object : ObjectRef)

/-- A context made on the spot. -/
structure ContextArg where
  key : Int64
  name : String
  object : Option ObjectArg := none

/-- A frame of a context, or an object that stands for a frame or a register bank. -/
inductive BankArg where
  | frame (context : ContextArg) (level : UInt32)
  | object (object : ObjectArg) (level : UInt32)

namespace Session

def space (s : Session) : SpaceArg → Except Failure AddressSpace
  | .named name =>
    match s.trace.directory.find? name with
    | some space => .ok space
    | none => .error .noSuchSpace
  | .inline space => .ok space

def object (s : Session) : ObjectArg → Except Failure ObjectRef
  | .named name =>
    match s.objects.get? name with
    | some object => .ok object
    | none => .error .noSuchObject
  | .inline object => .ok object

def context (s : Session) (c : ContextArg) : Except Failure ExecutionContext := do
  match c.object with
  | none => .ok ⟨c.key, c.name, none⟩
  | some object => .ok ⟨c.key, c.name, some (← s.object object)⟩

def registerKey (s : Session) : BankArg → Except Failure RegisterKey
  | .frame context level => do .ok (.frame (← s.context context) level)
  | .object object level => do .ok (.object (← s.object object) level)

def stackFrame (s : Session) : BankArg → Except Failure StackFrame
  | .frame context level => do .ok (.level (← s.context context) level)
  | .object object _ => do .ok (.object (← s.object object))

/-! ### Performing steps -/

/-- What a step comes to, with what happened on the way. -/
structure Performed (α : Type) where
  answer : Except Failure α
  notices : List Notice
  reports : List Report

def perform (step : Step α) (s : Session) : Performed α × Session :=
  let (answer, s) := step s
  let reports := s.trace.reports
  (⟨answer, s.trace.notices, reports⟩,
    { s with
      trace := { s.trace with notices := [], reports := [] }
      reported := s.reported + reports.length })

/-- A session in which nothing has happened, on a trace that is addressed through objects or not. -/
def fresh (schema : Bool) : Session := { trace := { objects := { schema } } }

def note (s : Session) (notices : List Notice) : Session :=
  { s with trace := { s.trace with notices := s.trace.notices ++ notices } }

end Session
end TraceAtlas
