import TraceAtlas.Object.Path

/-!
# The object tree

Objects of a trace form a forest. Every object knows the parent it was added under, and the children
of an object are listed in the order in which they were added. A parent is older than its children,
unless somebody makes up a reference with the identity that comes next: an object that is added
under such a reference is its own child.

A register container holds the registers of a frame. `ObjectTree.nearestContainer` looks for one
at or below an object, level by level: nearer ones first, and older siblings first among equally
near ones. Below an object whose last key is `Stack` only the child of the wanted frame is
entered. An object that is its own child is entered again on every level below its own, so a search
that comes to one and finds no container goes on for ever: then `nearestContainer` is not computed,
and has the value of a search that found nothing.
-/

namespace TraceAtlas

structure ObjectNode where
  object : ObjectRef
  container : Bool
  /-- The object under which this one was added, if the tree has it. -/
  parent : Option ObjectId
deriving DecidableEq, Repr

structure ObjectTree where
  /-- Whether the trace is addressed through objects. -/
  schema : Bool := false
  nodes : List ObjectNode := []
  /-- How often containers were searched for. -/
  queries : Nat := 0
deriving DecidableEq, Repr

namespace ObjectTree

/-- The key under which frames are listed. -/
def stackKey : String := "Stack"

def node? (t : ObjectTree) (id : ObjectId) : Option ObjectNode :=
  t.nodes.find? (·.object.id == id)

/-- The identity of the next object; the first one is 1. -/
def nextId (t : ObjectTree) : ObjectId := t.nodes.length + 1

/-- Adds an object at a path, under a parent if the tree then has it. -/
def insert (t : ObjectTree) (path : CanonicalPath) (container : Bool) (parent : Option ObjectId) :
    ObjectRef × ObjectTree :=
  let object : ObjectRef := ⟨t.nextId, path⟩
  let parent := parent.filter fun id => id == object.id || (t.node? id).isSome
  (object, { t with nodes := t.nodes ++ [⟨object, container, parent⟩] })

/-- Adds a root, which is no container. -/
def addRoot (t : ObjectTree) (key : String) : ObjectRef × ObjectTree :=
  t.insert (CanonicalPath.root.key key) false none

def addChild (t : ObjectTree) (parent : ObjectRef) (key : String) (container : Bool) :
    ObjectRef × ObjectTree :=
  t.insert (parent.path.key key) container (some parent.id)

def addElement (t : ObjectTree) (parent : ObjectRef) (index : UInt32) (container : Bool) :
    ObjectRef × ObjectTree :=
  t.insert (parent.path.index index.toNat) container (some parent.id)

def isContainer (t : ObjectTree) (object : ObjectRef) : Bool :=
  ((t.node? object.id).map (·.container)).getD false

def children (t : ObjectTree) (n : ObjectNode) : List ObjectNode :=
  t.nodes.filter (·.parent == some n.object.id)

/-- Whether a search for the registers of a frame goes on from an object to its child. -/
def enters (frame : UInt32) (n child : ObjectNode) : Bool :=
  n.object.path.last? != some stackKey ||
    child.object.path.last? == some (CanonicalPath.indexKey frame.toNat)

def below (t : ObjectTree) (frame : UInt32) (level : List ObjectNode) : List ObjectNode :=
  level.flatMap fun n => (t.children n).filter (enters frame n)

section
variable (below : List ObjectNode → List ObjectNode)

/-- The first container of a level or of those below it, as long as there is anything on them. -/
def searchOn (level : List ObjectNode) : Option ObjectNode :=
  match level.find? (·.container) with
  | some n => some n
  | none => if level.isEmpty then none else searchOn.comp below level
-- what is found on a level stays, however much further the search is followed below it
partial_fixpoint monotonicity fun _ _ goes level => by
  dsimp only
  split
  · exact .refl
  · split
    · exact .refl
    · exact goes (below level)

end

/-- The first container of a level or of those below it. The number of rounds does not matter for
what is found: it says how many levels are gone through by recursion on it. -/
def search (t : ObjectTree) (frame : UInt32) : (rounds : Nat) → List ObjectNode → Option ObjectNode
  | 0, level => if level.isEmpty then none else searchOn (t.below frame) level
  | rounds + 1, level =>
    match level.find? (·.container) with
    | some n => some n
    | none => search t frame rounds (t.below frame level)

/-- The nearest register container at or below an object, for a frame. Where no object is its own
child, children are younger than their parents, so the tree has at most as many levels as objects. -/
def nearestContainer (t : ObjectTree) (object : ObjectRef) (frame : UInt32) : Option ObjectRef := do
  let start ← t.node? object.id
  let found ← t.search frame t.nodes.length [start]
  some found.object

end ObjectTree
end TraceAtlas
