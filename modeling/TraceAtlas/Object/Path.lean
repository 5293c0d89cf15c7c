/-!
# Canonical paths

An object of a trace is named by the keys on its way from the root. Index keys are kept with their
brackets; written out, a name key is set off by a dot and an index key is not, as in
`Processes[1].Threads[2].Registers`.
-/

namespace TraceAtlas

/-- The keys of an object, from the root down. -/
structure CanonicalPath where
  keys : List String
deriving DecidableEq, Repr

namespace CanonicalPath

def root : CanonicalPath := ⟨[]⟩

/-- The path one key further down. -/
def key (p : CanonicalPath) (name : String) : CanonicalPath := ⟨p.keys ++ [name]⟩

/-- The key of an index, which may be negative. -/
def indexKey (n : Int) : String := "[" ++ toString n ++ "]"

/-- The path one index further down. -/
def index (p : CanonicalPath) (n : Int) : CanonicalPath := p.key (indexKey n)

def isIndex (key : String) : Bool := key.toList.head? == some '[' && key.toList.getLast? == some ']'

def last? (p : CanonicalPath) : Option String := p.keys.getLast?

/-- A key that is not the first, with its separator if it needs one. -/
def separated (key : String) : String := if isIndex key then key else "." ++ key

/-- The keys written out as one text. -/
def text (p : CanonicalPath) : String :=
  match p.keys with
  | [] => ""
  | first :: rest => first ++ String.join (rest.map separated)

example : text ⟨["Processes", "[1]", "Threads", "[2]", "Registers"]⟩ =
    "Processes[1].Threads[2].Registers" := by decide
example : text ⟨["[3]", "[4]"]⟩ = "[3][4]" := by decide
example : text ⟨["", "a"]⟩ = ".a" := by decide
example : (root.key "T" |>.index (-1) |>.key "R").text = "T[-1].R" := by decide

/-- The order of paths: key by key. -/
def order (p q : CanonicalPath) : Ordering := compare p.keys q.keys

instance : Ord CanonicalPath := ⟨order⟩

end CanonicalPath

abbrev ObjectId := Nat

/-- An object as it is handed around: its identity and where it sits. -/
structure ObjectRef where
  id : ObjectId
  path : CanonicalPath
deriving DecidableEq, Repr

end TraceAtlas
