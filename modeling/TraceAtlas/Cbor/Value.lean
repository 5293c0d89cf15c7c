import TraceAtlas.Cbor.Binary64

/-!
# Data items

A `Value` is a CBOR data item without tags. A map is a list of entries; in a map as data each key
stands once and the keys are in canonical order, which is how `Value.ofPairs` builds it.

Writing a value and reading it back fail with an `Error`. Not every integer can be written, which
`Value.encodable` tells, and a value nested too deeply cannot be read back, for which `Value.depth`
counts the levels.
-/

namespace TraceAtlas.Cbor

inductive Value where
  | null
  | bool (b : Bool)
  | int (i : Int)
  | float (x : Binary64)
  | bytes (bs : List UInt8)
  | text (s : String)
  | array (items : List Value)
  | map (entries : List (Value × Value))

instance : Inhabited Value := ⟨.null⟩

/-- What is wrong with a byte string that was to be read, or a value that was to be written. -/
inductive Error where
  /-- The input ends inside a data item. -/
  | eof
  /-- The bytes are no data item, or more than one. -/
  | malformed
  /-- A data item of the wrong kind, or a value outside the format. -/
  | data
deriving DecidableEq, Repr

namespace Value

/-! ### Integers -/

def fits (i : Int) : Bool := -(UInt64.size : Int) ≤ i && i < (UInt64.size : Int)

mutual
/-- Whether every integer of the value fits a head. -/
def encodable : Value → Bool
  | .int i => fits i
  | .array items => encodableItems items
  | .map entries => encodableEntries entries
  | _ => true

def encodableItems : List Value → Bool
  | [] => true
  | v :: vs => encodable v && encodableItems vs

def encodableEntries : List (Value × Value) → Bool
  | [] => true
  | (k, v) :: es => encodable k && encodable v && encodableEntries es
end

/-! ### Depth -/

mutual
/-- How many arrays and maps stand around the most deeply nested part. -/
def depth : Value → Nat
  | .array items => depthItems items + 1
  | .map entries => depthEntries entries + 1
  | _ => 0

def depthItems : List Value → Nat
  | [] => 0
  | v :: vs => max (depth v) (depthItems vs)

def depthEntries : List (Value × Value) → Nat
  | [] => 0
  | (k, v) :: es => max (max (depth k) (depth v)) (depthEntries es)
end

end Value
end TraceAtlas.Cbor
