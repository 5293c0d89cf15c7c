import TraceAtlas.Cbor.Value
import TraceAtlas.Text.Utf8

/-!
# Writing data items

`Value.bytesOf` writes a value with the shortest heads, definite lengths and the shortest
floating-point format that keeps a number; a map is written entry by entry, as it is listed.
`Value.encode` makes a document of it: it puts the self-describe tag in front, and refuses integers
that no head can hold.
-/

namespace TraceAtlas.Cbor

/-! ### Heads -/

/-- The `k` bytes of `n`, most significant first. -/
def bigEndian : Nat → Nat → List UInt8
  | 0, _ => []
  | k + 1, n => bigEndian k (n / 256) ++ [UInt8.ofNat n]

/-- The number that bytes spell, most significant first. -/
def ofBigEndian (bs : List UInt8) : Nat := bs.foldl (fun n b => n * 256 + b.toNat) 0

/-- The shortest head of a major type with argument `n`. -/
def head (major n : Nat) : List UInt8 :=
  if n < 24 then [UInt8.ofNat (major * 32 + n)]
  else if n < UInt8.size then UInt8.ofNat (major * 32 + 24) :: bigEndian 1 n
  else if n < UInt16.size then UInt8.ofNat (major * 32 + 25) :: bigEndian 2 n
  else if n < UInt32.size then UInt8.ofNat (major * 32 + 26) :: bigEndian 4 n
  else UInt8.ofNat (major * 32 + 27) :: bigEndian 8 n

example : head 0 23 = [0x17] ∧ head 0 24 = [0x18, 24] ∧ head 3 500 = [0x79, 0x01, 0xf4] := by
  decide

/-- A number in the shortest format that holds it exactly. -/
def floatBytes (x : Binary64) : List UInt8 :=
  match Format.half.narrow? x with
  | some n => 0xf9 :: bigEndian 2 n
  | none =>
    match Format.single.narrow? x with
    | some n => 0xfa :: bigEndian 4 n
    | none => 0xfb :: bigEndian 8 x.toNat

/-- An integer: those below zero count from minus one downwards. -/
def intBytes : Int → List UInt8
  | .ofNat n => head 0 n
  | .negSucc n => head 1 n

namespace Value

/-! ### Bytes of a value -/

mutual
/-- The canonical bytes of a value. -/
def bytesOf : Value → List UInt8
  | .null => [0xf6]
  | .bool false => [0xf4]
  | .bool true => [0xf5]
  | .int i => intBytes i
  | .float x => floatBytes x
  | .bytes bs => head 2 bs.length ++ bs
  | .text s => head 3 (Utf8.encode s).length ++ Utf8.encode s
  | .array items => head 4 items.length ++ bytesOfItems items
  | .map entries => head 5 entries.length ++ bytesOfEntries entries

def bytesOfItems : List Value → List UInt8
  | [] => []
  | v :: vs => bytesOf v ++ bytesOfItems vs

def bytesOfEntries : List (Value × Value) → List UInt8
  | [] => []
  | (k, v) :: es => bytesOf k ++ bytesOf v ++ bytesOfEntries es
end

/-- The tag that marks a byte string as self-described data. -/
def selfDescribed : List UInt8 := [0xd9, 0xd9, 0xf7]

/-- A value as a document of its own: the self-describe tag and the canonical bytes. -/
def document (v : Value) : List UInt8 := selfDescribed ++ bytesOf v

/-- The document of a value, if all its integers fit. -/
def encode (v : Value) : Except Error (List UInt8) :=
  if v.encodable then .ok v.document else .error .data

end Value
end TraceAtlas.Cbor
