import TraceAtlas.Atlas.Create

/-!
# Register banks found through objects

The registers of an object are kept by the nearest register container at or below it. A container
is given an overlay of the register space, named after the container's path, and from then on it
is a memory slot like any other.

The way from an object to its sub-space has four sections, and each of them sees the atlas at one
moment: `objectHit` asks what was found before, `container` searches the tree, `containerSpace`
takes the slot of the container, and `remember` keeps the answer. `throughObject` runs them one
after the other.
-/

namespace TraceAtlas.Atlas

variable {σ : Type}

/-- What was found before through an object, for a frame. -/
def objectHit (a : Atlas σ) (object : ObjectRef) (frame : UInt32) : Option SubSpace :=
  a.registry.byObject.get? ⟨object.id, frame⟩

/-- The container of an object: the object itself, or the nearest one below it. -/
def container (a : Atlas σ) (object : ObjectRef) (frame : UInt32) : Option ObjectRef × Atlas σ :=
  let objects := a.trace.objects
  if !a.settings.objects then (none, a)
  else if objects.isContainer object then (some object, a)
  else
    (objects.nearestContainer object frame,
      { a with trace := { a.trace with
          objects := { objects with queries := objects.queries + 1 } } })

/-- Keeps what was found through an object. -/
def remember (a : Atlas σ) (object : ObjectRef) (frame : UInt32) (s : SubSpace) : Atlas σ :=
  { a with registry := { a.registry with
      byObject := a.registry.byObject.insert ⟨object.id, frame⟩ s } }

def overlay (a : Atlas σ) (name : String) : Answer σ (Option AddressSpace) :=
  let minted := a.trace.directory.overlay name a.settings.language.registerSpace
  let a := { a with trace := { a.trace with directory := minted.directory } }
  (a.note minted.notices).settle name minted.space

/-- What the slot of a container holds, if its overlay is there. -/
def heldByContainer (a : Atlas σ) (container : ObjectRef) : Answer σ (Option SubSpace) :=
  match a.findSpace container.path.text with
  | (none, a) => (.ok none, a)
  | (some space, a) =>
    match a.check space with
    | (.error e, a) => (.error e, a)
    | (.ok (), a) => (.ok (a.caches.memory.get? space), a)

variable [EntryTable σ]

/-- What the slot of a container holds; the overlay and the sub-space are made if they are
missing. -/
def filledForContainer (a : Atlas σ) (container : ObjectRef) : Answer σ (Option SubSpace) :=
  match a.overlay container.path.text with
  | (.error e, a) => (.error e, a)
  | (.ok none, a) => (.ok none, a)
  | (.ok (some space), a) =>
    match a.check space with
    | (.error e, a) => (.error e, a)
    | (.ok (), a) => a.memoryOrCreate space

/-- What the slot of a container holds, made if need be and if `create` says so. -/
def containerSpace (a : Atlas σ) (container : ObjectRef) (create : Bool) :
    Answer σ (Option SubSpace) :=
  if create then a.filledForContainer container else a.heldByContainer container

/-- The sub-space of an object's registers, for a frame. -/
def throughObject (a : Atlas σ) (object : ObjectRef) (frame : UInt32) (create : Bool) :
    Answer σ (Option SubSpace) :=
  match a.objectHit object frame with
  | some s => (.ok (some s), a)
  | none =>
    match a.container object frame with
    | (none, a) => (.ok none, a)
    | (some container, a) =>
      match a.containerSpace container create with
      | (.error e, a) => (.error e, a)
      | (.ok none, a) => (.ok none, a)
      | (.ok (some s), a) => (.ok (some s), a.remember object frame s)

end TraceAtlas.Atlas
