import TraceAtlas.Entry.Codec

/-!
# Records

A table file holds records: a header with the version of the schema, or a row. A record is written
as a map whose field `record` says which of the two it is. It is read from such a map with its
fields in any order, or from an array that starts with the kind; either is recognised by name or
by position.

The kind may be the last thing to come, so all other fields are read as data items first and taken
apart once the kind is known.
-/

namespace TraceAtlas

open Cbor

/-- What one record of a table file says. -/
inductive Record where
  | header (version : UInt32)
  | row (key : RowKey) (entry : Entry)
deriving DecidableEq, Repr

namespace Record

inductive Kind where
  | header
  | row
deriving DecidableEq, Repr

def kindField : String := "record"

def kindNames : List String := ["header", "row"]

def headerFields : List String := ["version"]

def rowFields : List String := ["key", "entry"]

/-- The data that a record is written as. -/
def toValue : Record → Value
  | header version => .ofPairs [
      (.text kindField, .text "header"),
      (.text "version", .int version.toNat)]
  | row key entry => .ofPairs [
      (.text kindField, .text "row"),
      (.text "key", .int key),
      (.text "entry", entry.toValue)]

def encode (r : Record) : Except Error (List UInt8) := r.toValue.encode

/-! ### Taking items apart -/

def versionOf? (found : Option UInt32) : List (Item × Item) → Option UInt32
  | [] => found
  | (k, v) :: pairs =>
    match k.fieldName? headerFields with
    | some (.field _) =>
      if found.isSome then none
      else do
        let n ← v.natBelow? UInt32.size
        versionOf? (some (UInt32.ofNat n)) pairs
    | some .unknown => versionOf? found pairs
    | none => none

def rowOf? (key : Option RowKey) (entry : Option Entry) :
    List (Item × Item) → Option (RowKey × Entry)
  | [] => do some (← key, ← entry)
  | (k, v) :: pairs =>
    match k.fieldName? rowFields with
    | some (.field 0) =>
      if key.isSome then none
      else do
        let n ← v.natBelow? UInt64.size
        rowOf? (some n) entry pairs
    | some (.field _) =>
      if entry.isSome then none
      else do
        let e ← Entry.ofItem? v
        rowOf? key (some e) pairs
    | some .unknown => rowOf? key entry pairs
    | none => none

/-- The record of a kind with fields by name. -/
def ofPairs? (kind : Kind) (pairs : List (Item × Item)) : Option Record :=
  match kind with
  | .header => (versionOf? none pairs).map header
  | .row => (rowOf? none none pairs).map fun r => row r.1 r.2

/-- The record of a kind with fields in order. -/
def ofItems? : Kind → List Item → Option Record
  | .header, [version] => (version.natBelow? UInt32.size).map fun n => header (UInt32.ofNat n)
  | .row, [key, entry] => do
    let key ← key.natBelow? UInt64.size
    let entry ← Entry.ofItem? entry
    some (row key entry)
  | _, _ => none

/-! ### Reading -/

def kind? (h : Head) : Option Kind :=
  match h.fieldName? kindNames with
  | some (.field 0) => some .header
  | some (.field _) => some .row
  | _ => none

def readKind (depth : Nat) : Reader Kind := readScalar kind? depth

/-- Whether a key names the field of the kind. -/
def isKindField : Item → Bool
  | .text s => s = kindField
  | .bytes bs => bs = Utf8.encode kindField
  | _ => false

/-- The fields of a record met so far. -/
structure Draft where
  kind : Option Kind := none
  /-- All fields but the kind, in the order in which they were written. -/
  pairs : List (Item × Item) := []

def Draft.readPair (depth : Nat) (d : Draft) : Reader Draft := fun bs => do
  let (key, bs) ← readItem .word depth bs
  if isKindField key then
    if d.kind.isSome then .error .data
    else do
      let (kind, bs) ← readKind depth bs
      .ok ({ d with kind := some kind }, bs)
  else do
    let (value, bs) ← readItem .word depth bs
    .ok ({ d with pairs := d.pairs ++ [(key, value)] }, bs)

/-- The record, if the kind was given and its fields are those of the kind. -/
def Draft.complete? (d : Draft) : Option Record := do ofPairs? (← d.kind) d.pairs

/-- Reads a record inside which `depth` levels are allowed. -/
def read (depth : Nat) : Reader Record := fun bs => do
  let ((h, depth), bs) ← readUntagged depth bs
  let (record, bs) ← match h, depth with
    | .array cursor, depth + 1 => do
      let ((kind, cursor), bs) ← readElement (readKind depth) cursor bs
      let (items, bs) ← readMany (readItem .word depth) cursor bs
      .ok (ofItems? kind items, bs)
    | .map cursor, depth + 1 => do
      let (draft, bs) ← stepMany (Draft.readPair depth) cursor {} bs
      .ok (draft.complete?, bs)
    | h, depth => .error (h.mismatch depth)
  match record with
  | some r => .ok (r, bs)
  | none => .error .data

/-- The record that a byte string holds. -/
def decode (bs : List UInt8) : Except Error Record := readAll (read maxDepth) bs

end Record
end TraceAtlas
