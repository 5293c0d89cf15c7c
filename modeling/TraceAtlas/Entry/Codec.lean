import TraceAtlas.Entry
import TraceAtlas.Cbor.Fields

/-!
# Entries as data

An entry is written as a map of its three fields and read back from such a map in any order, from an
array of the fields in order, with unknown fields passed over. A `Draft` collects the fields while a
map is read: a field given twice and a field not given are both faults of the data.

`Entry.read` reads straight off the bytes, `Entry.ofItem?` from a data item read beforehand.
-/

namespace TraceAtlas

open Cbor

namespace Entry

def fieldNames : List String := ["space_name", "context_key", "frame_level"]

/-- The data that an entry is written as. -/
def toValue (e : Entry) : Value :=
  .ofPairs [
    (.text "space_name", .text e.space),
    (.text "context_key", .int e.context.toInt),
    (.text "frame_level", .int e.frame.toNat)]

def encode (e : Entry) : List UInt8 := e.toValue.document

/-- The fields of an entry met so far. -/
structure Draft where
  space : Option String := none
  context : Option Int64 := none
  frame : Option UInt32 := none

namespace Draft

def has (d : Draft) : Nat → Bool
  | 0 => d.space.isSome
  | 1 => d.context.isSome
  | _ => d.frame.isSome

def complete? (d : Draft) : Option Entry :=
  match d.space, d.context, d.frame with
  | some space, some context, some frame => some ⟨space, context, frame⟩
  | _, _, _ => none

def readField (depth : Nat) (d : Draft) : (position : Nat) → Reader Draft
  | 0, bs => do
    let (s, bs) ← readText depth bs
    .ok ({ d with space := some s }, bs)
  | 1, bs => do
    let (i, bs) ← readInt64 depth bs
    .ok ({ d with context := some i }, bs)
  | _, bs => do
    let (n, bs) ← readNatBelow UInt32.size depth bs
    .ok ({ d with frame := some (UInt32.ofNat n) }, bs)

def readPair (depth : Nat) (d : Draft) : Reader Draft := fun bs => do
  let (name, bs) ← readScalar (Head.fieldName? fieldNames) depth bs
  match name with
  | .field i => if d.has i then .error .data else d.readField depth i bs
  | .unknown =>
    let (_, bs) ← readItem .anyHead depth bs
    .ok (d, bs)

def putItem? (d : Draft) (x : Item) : (position : Nat) → Option Draft
  | 0 => x.text?.map fun s => { d with space := some s }
  | 1 => x.int64?.map fun i => { d with context := some i }
  | _ => (x.natBelow? UInt32.size).map fun n => { d with frame := some (UInt32.ofNat n) }

def putPair? (d : Draft) (pair : Item × Item) : Option Draft :=
  match pair.1.fieldName? fieldNames with
  | some (.field i) => if d.has i then none else d.putItem? pair.2 i
  | some .unknown => some d
  | none => none

end Draft

/-- Reads an entry inside which `depth` levels are allowed. -/
def read (depth : Nat) : Reader Entry := fun bs => do
  let ((h, depth), bs) ← readUntagged depth bs
  match h, depth with
  | .array cursor, depth + 1 =>
    let ((space, cursor), bs) ← readElement (readText depth) cursor bs
    let ((context, cursor), bs) ← readElement (readInt64 depth) cursor bs
    let ((frame, cursor), bs) ← readElement (readNatBelow UInt32.size depth) cursor bs
    let bs ← cursor.finish bs
    .ok (⟨space, context, UInt32.ofNat frame⟩, bs)
  | .map cursor, depth + 1 =>
    let (draft, bs) ← stepMany (Draft.readPair depth) cursor {} bs
    match draft.complete? with
    | some e => .ok (e, bs)
    | none => .error .data
  | h, depth => .error (h.mismatch depth)

/-- The entry that a byte string holds. -/
def decode (bs : List UInt8) : Except Error Entry := readAll (read maxDepth) bs

def ofItem? : Item → Option Entry
  | .array [space, context, frame] => do
    let space ← space.text?
    let context ← context.int64?
    let frame ← frame.natBelow? UInt32.size
    some ⟨space, context, UInt32.ofNat frame⟩
  | .map pairs => (pairs.foldlM Draft.putPair? {}) >>= Draft.complete?
  | _ => none

end Entry

/-! ### Row keys and rows -/

def RowKey.encode (key : RowKey) : Except Error (List UInt8) := Value.encode (.int key)

def RowKey.read (depth : Nat) : Reader RowKey := readNatBelow UInt64.size depth

def RowKey.decode (bs : List UInt8) : Except Error RowKey := readAll (RowKey.read maxDepth) bs

namespace Row

/-- The data that a list of rows is written as: pairs of key and entry. -/
def listToValue (rows : List Row) : Value :=
  .array (rows.map fun row => .array [.int row.1, row.2.toValue])

def encodeList (rows : List Row) : Except Error (List UInt8) := (listToValue rows).encode

def read (depth : Nat) : Reader Row := fun bs => do
  let ((h, depth), bs) ← readUntagged depth bs
  match h, depth with
  | .array cursor, depth + 1 =>
    let ((key, cursor), bs) ← readElement (RowKey.read depth) cursor bs
    let ((entry, cursor), bs) ← readElement (Entry.read depth) cursor bs
    let bs ← cursor.finish bs
    .ok ((key, entry), bs)
  | h, depth => .error (h.mismatch depth)

def readList (depth : Nat) : Reader (List Row) := fun bs => do
  let ((h, depth), bs) ← readUntagged depth bs
  match h, depth with
  | .array cursor, depth + 1 => readMany (read depth) cursor bs
  | h, depth => .error (h.mismatch depth)

def decodeList (bs : List UInt8) : Except Error (List Row) := readAll (readList maxDepth) bs

end Row
end TraceAtlas
