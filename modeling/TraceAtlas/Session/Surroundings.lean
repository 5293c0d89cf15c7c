import TraceAtlas.Session.Basic

/-!
# Steps that change the trace

These steps change or question what the registries of a session share: the directory of spaces, the
contexts, the object tree, and the failures that are planned.
-/

namespace TraceAtlas.Session

def withDirectory (s : Session) (d : Directory) : Session :=
  { s with trace := { s.trace with directory := d } }

def addSpace (space : AddressSpace) : Step AddressSpace := fun s =>
  (.ok space, s.withDirectory (s.trace.directory.add space))

def removeSpace (name : String) : Step (Option AddressSpace) := fun s =>
  (.ok (s.trace.directory.find? name), s.withDirectory (s.trace.directory.remove name))

def findSpace (name : String) : Step (Option AddressSpace) := fun s =>
  (.ok (s.trace.directory.find? name), s)

/-- What is wrong with the table of overlays. -/
inductive OverlayFault where
  | down
  | outdated
  | none

/-- Makes the table of overlays fail, or mends it. -/
def faultOverlays (fault : OverlayFault) : Step Bool := fun s =>
  let d := s.trace.directory
  (.ok true, s.withDirectory (match fault with
    | .down => { d with overlaysDown := true }
    | .outdated => { d with overlaysOutdated := true }
    | .none => { d with overlaysDown := false, overlaysOutdated := false }))

/-- Refuses a name, or takes the refusal back. -/
def refuse (name : String) (on : Bool) : Step Bool := fun s =>
  (.ok true, s.withDirectory (s.trace.directory.refuse name on))

def addContext (c : ContextArg) : Step ExecutionContext := fun s =>
  match s.context c with
  | .error e => (.error e, s)
  | .ok c =>
    (.ok c, { s with trace := { s.trace with contexts := s.trace.contexts.add c } })

def removeContext (key : Int64) : Step (Option ExecutionContext) := fun s =>
  (.ok (s.trace.contexts.context key),
    { s with trace := { s.trace with contexts := s.trace.contexts.erase key } })

def ownsContext (c : ContextArg) : Step Bool := fun s =>
  match s.context c with
  | .error e => (.error e, s)
  | .ok c => (.ok (ContextDirectory.owns s.trace.contexts c), s)

/-- The last key of a new object. -/
inductive ObjectKey where
  | name (key : String)
  | index (n : UInt32)

/-- Adds an object and names it. An object without a parent is a root, by its name. -/
def addObject (as : String) (parent : Option ObjectArg) (key : ObjectKey) (container : Bool) :
    Step ObjectRef := fun s =>
  let keep (added : ObjectRef × ObjectTree) : Except Failure ObjectRef × Session :=
    (.ok added.1, { s with
      trace := { s.trace with objects := added.2 }
      objects := s.objects.insert as added.1 })
  let tree := s.trace.objects
  match parent with
  | none =>
    match key with
    | .name key => keep (tree.addRoot key)
    | .index n => keep (tree.addRoot (CanonicalPath.indexKey n.toNat))
  | some parent =>
    match s.object parent with
    | .error e => (.error e, s)
    | .ok parent =>
      match key with
      | .name key => keep (tree.addChild parent key container)
      | .index n => keep (tree.addElement parent n container)

/-- What the object tree says about an object. -/
structure ObjectFacts where
  schema : Bool
  container : Bool
  /-- The nearest container. -/
  found : Option ObjectRef

/-- Questions the object tree; the search counts. -/
def queryObject (object : ObjectArg) (frame : UInt32) : Step ObjectFacts := fun s =>
  match s.object object with
  | .error e => (.error e, s)
  | .ok object =>
    let tree := s.trace.objects
    (.ok ⟨tree.schema, tree.isContainer object, tree.nearestContainer object frame⟩,
      { s with trace := { s.trace with objects := { tree with queries := tree.queries + 1 } } })

def failNextBuild (fault : Fault) : Step Bool := fun s =>
  (.ok true, { s with trace := { s.trace with
      factory := { s.trace.factory with plan := [some fault] } } })

def failNextRow (fault : Fault) : Step Bool := fun s =>
  (.ok true, { s with shelf := { s.shelf with plan := [some fault] } })

structure Counters where
  built : Nat
  tables : List String
  calls : Nat
  minted : Nat
  queries : Nat
  reported : Nat

def counters : Step Counters := fun s =>
  let t := s.trace
  (.ok ⟨t.factory.built, t.factory.tables, t.directory.calls, t.directory.minted,
    t.objects.queries, s.reported + t.reports.length⟩, s)

/-- The sub-spaces answered so far, by serial number, and how often each was told to forget. -/
def heldSpaces : Step (List (Nat × Nat)) := fun s =>
  (.ok (s.held.keys.map fun serial => (serial, s.trace.factory.forgets serial)), s)

end TraceAtlas.Session
