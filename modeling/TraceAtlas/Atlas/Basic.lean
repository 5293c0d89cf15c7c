import TraceAtlas.Directory
import TraceAtlas.Object.Tree
import TraceAtlas.Registry.Caches
import TraceAtlas.Registry.Error
import TraceAtlas.Registry.Settings

/-!
# Registries at work

A `Registry` is what one registry keeps for itself: its slots and bindings, the sub-spaces found
through objects, and the table errors that are still to be reported. It works inside a `Trace`,
which holds everything that registries share, and on an entry table. The three together are an
`Atlas`.

An error of a table is settled where it is met: `Atlas.settle` gives an error of the schema to the
caller and puts any other aside, and `Atlas.report` hands on what was put aside when the slots are
as the call leaves them.
-/

namespace TraceAtlas

/-- A registry by itself. -/
structure Registry where
  settings : Settings
  caches : Caches := {}
  /-- Sub-spaces found through objects. -/
  byObject : SortedMap ObjectSlot SubSpace := .empty
  /-- Table errors that are still to be reported, oldest first. -/
  deferred : List TableError := []
deriving DecidableEq

/-- A table error as it was reported, with the slots and bindings as whoever was told found them. -/
structure Report where
  error : TableError
  caches : Caches
deriving DecidableEq

/-- What the registries of a trace share. -/
structure Trace where
  directory : Directory := .standard
  contexts : ContextDirectory := .empty
  objects : ObjectTree := {}
  factory : Factory := {}
  /-- Everything noted, oldest first. -/
  notices : List Notice := []
  /-- Everything reported, oldest first. -/
  reports : List Report := []

/-- A registry at work: its own state, its entry table and the trace around it. -/
structure Atlas (σ : Type) where
  registry : Registry
  table : σ
  trace : Trace

namespace Atlas

variable {σ : Type}

def note (a : Atlas σ) (notices : List Notice) : Atlas σ :=
  { a with trace := { a.trace with notices := a.trace.notices ++ notices } }

def withCaches (a : Atlas σ) (caches : Caches) : Atlas σ :=
  { a with registry := { a.registry with caches } }

def caches (a : Atlas σ) : Caches := a.registry.caches

def settings (a : Atlas σ) : Settings := a.registry.settings

/-- The context of a key, as far as the registry knows contexts. -/
def context? (a : Atlas σ) (key : Int64) : Option ExecutionContext :=
  if a.settings.contexts then a.trace.contexts.context key else none

/-- Whether the registry works on a trace that is addressed through objects. -/
def hasSchema (a : Atlas σ) : Bool := a.settings.objects && a.trace.objects.schema

/-- Sorts out the answer of a table or of something like one: an error of the schema is the
caller's, any other error is put aside to be reported, and nothing comes of the request. -/
def settle (a : Atlas σ) (table : String) :
    Except TableError α → Except SpaceError (Option α) × Atlas σ
  | .ok x => (.ok (some x), a)
  | .error e =>
    if e.isVersion then (.error (.schema table e), a)
    else
      (.ok none, { a with registry := { a.registry with deferred := a.registry.deferred ++ [e] } })

/-- Reports the errors put aside, oldest first. -/
def report (a : Atlas σ) : Atlas σ :=
  let errors := a.registry.deferred
  let a := { a with registry := { a.registry with deferred := [] } }
  match a.settings.hook with
  | .note => a.note (errors.map .tableFailed)
  | .record =>
    let reports := errors.map fun e => ⟨e, a.caches⟩
    { a with trace := { a.trace with reports := a.trace.reports ++ reports } }

/-- Asks the directory whether a space may have sub-spaces. -/
def check (a : Atlas σ) (space : AddressSpace) : Except SpaceError Unit × Atlas σ :=
  let directory := a.trace.directory
  let a := { a with trace := { a.trace with directory := directory.counted } }
  if !directory.vouchesFor space then (.error (.foreignSpace space.name), a)
  else if !space.isKeepable then (.error (.unkeepableSpace space.name), a)
  else (.ok (), a)

def findSpace (a : Atlas σ) (name : String) : Option AddressSpace × Atlas σ :=
  let directory := a.trace.directory
  (directory.find? name, { a with trace := { a.trace with directory := directory.counted } })

end Atlas
end TraceAtlas
