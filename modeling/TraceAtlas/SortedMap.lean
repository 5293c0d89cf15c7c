/-!
# Sorted maps

A map kept as a list of keys and values in increasing key order. Writing a key puts it in its place,
or replaces the value that stands there; nothing else moves. The order in which keys were written
therefore leaves no trace, and listing a map walks its keys in order.

The insertion itself is `insertSorted`, on plain lists and for any comparison, because encoded maps
of data items are sorted the same way.
-/

namespace TraceAtlas

/-- Write `v` at key `k` of a list sorted by `cmp`: a value at that key is replaced, a new key goes
in front of the first larger one. -/
def insertSorted (cmp : α → α → Ordering) (k : α) (v : β) : List (α × β) → List (α × β)
  | [] => [(k, v)]
  | e :: es =>
    match cmp k e.1 with
    | .lt => (k, v) :: e :: es
    | .eq => (e.1, v) :: es
    | .gt => e :: insertSorted cmp k v es

/-- A map as a list of entries in increasing key order. -/
structure SortedMap (α β : Type) where
  /-- The keys with their values, smallest key first. -/
  entries : List (α × β) := []
deriving DecidableEq, Repr

namespace SortedMap

variable {α β : Type} [Ord α]

def empty : SortedMap α β := ⟨[]⟩

instance : Inhabited (SortedMap α β) := ⟨⟨[]⟩⟩

def get? (m : SortedMap α β) (k : α) : Option β :=
  (m.entries.find? fun e => compare k e.1 == .eq).map (·.2)

/-- Write a value at a key, replacing the one that stands there. -/
def insert (m : SortedMap α β) (k : α) (v : β) : SortedMap α β :=
  ⟨insertSorted compare k v m.entries⟩

def erase (m : SortedMap α β) (k : α) : SortedMap α β :=
  ⟨m.entries.filter fun e => compare k e.1 != .eq⟩

def keepKeys (m : SortedMap α β) (p : α → Bool) : SortedMap α β :=
  ⟨m.entries.filter fun e => p e.1⟩

def values (m : SortedMap α β) : List β := m.entries.map (·.2)

def keys (m : SortedMap α β) : List α := m.entries.map (·.1)

def size (m : SortedMap α β) : Nat := m.entries.length

/-- The keys of a list, each once and in increasing order. -/
def distinct (xs : List α) : List α :=
  (xs.foldl (fun m x => insertSorted compare x () m) []).map (·.1)

end SortedMap
end TraceAtlas
