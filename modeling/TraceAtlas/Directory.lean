import TraceAtlas.Notice
import TraceAtlas.SortedMap
import TraceAtlas.Space

/-!
# The directory of address spaces

The directory files the spaces of a trace under their names. It vouches for the spaces it has
filed and for the sentinel kind, and it alone mints overlays, which it numbers from 100. It counts
what it is asked.

Parts of it can be made to fail: names can be refused, and the table of overlays can be taken away
or come under another version of the schema.
-/

namespace TraceAtlas

structure Directory where
  spaces : SortedMap String AddressSpace
  /-- The number of the next overlay. -/
  nextId : UInt32 := 100
  calls : Nat := 0
  minted : Nat := 0
  /-- Names whose spaces are not vouched for. -/
  refused : List String := []
  overlaysDown : Bool := false
  /-- Whether the table of overlays is of another version. -/
  overlaysOutdated : Bool := false
deriving DecidableEq

namespace Directory

/-- The spaces of the architecture: `const`, `register`, `ram`, `unique` and `stack`. -/
def standard : Directory where
  spaces := [
    (⟨0, "const", .constant, none⟩ : AddressSpace),
    ⟨1, "register", .register, none⟩,
    ⟨2, "ram", .memory, none⟩,
    ⟨3, "unique", .unique, none⟩,
    ⟨4, "stack", .stack, none⟩].foldl (fun m s => m.insert s.name s) SortedMap.empty

def find? (d : Directory) (name : String) : Option AddressSpace := d.spaces.get? name

/-- Files a space under its name, in place of one of the same name. -/
def add (d : Directory) (s : AddressSpace) : Directory :=
  { d with spaces := d.spaces.insert s.name s }

def remove (d : Directory) (name : String) : Directory := { d with spaces := d.spaces.erase name }

/-- Refuses a name, or takes the refusal back. -/
def refuse (d : Directory) (name : String) (on : Bool) : Directory :=
  let others := d.refused.filter (· != name)
  { d with refused := if on then name :: others else others }

def counted (d : Directory) : Directory := { d with calls := d.calls + 1 }

/-- Whether the directory vouches for a space. -/
def vouchesFor (d : Directory) (s : AddressSpace) : Bool :=
  (s.isNoAddress || d.find? s.name == some s) && !d.refused.contains s.name

/-- The version that an outdated table of overlays claims to have. -/
def outdatedVersion : UInt32 := 7

/-- The answer to a request for an overlay. -/
structure Minted where
  space : Except TableError AddressSpace
  directory : Directory
  notices : List Notice := []

/-- The space of a name; if there is none, a new overlay of `base` under that name. -/
def overlay (d : Directory) (name : String) (base : AddressSpace) : Minted :=
  if d.overlaysOutdated then ⟨.error (.version name schemaVersion outdatedVersion), d, []⟩
  else if d.overlaysDown then
    ⟨.error (.io ("memory://overlays/" ++ name) .overlaysUnavailable), d.counted, []⟩
  else
    match d.find? name with
    | some s => ⟨.ok s, d.counted, []⟩
    | none =>
      let s := AddressSpace.overlay d.nextId name base
      let d := d.counted.add s
      ⟨.ok s, { d with nextId := d.nextId + 1, minted := d.minted + 1 },
        [.overlayMinted name base.name]⟩

end Directory
end TraceAtlas
