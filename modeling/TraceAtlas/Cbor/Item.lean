import TraceAtlas.Cbor.Head
import TraceAtlas.Cbor.Order

/-!
# Reading whole data items

`readItem` reads a data item of any kind, keeping how wide its unsigned integers were written.
Arrays, maps and tags nest; each is one level, and the reader takes the number of levels that are
still allowed. `Value.decode` reads a byte string that must hold exactly one item, forgets tags
and widths and sorts maps, so that it undoes `Value.encode` as far as the nesting allows.
-/

namespace TraceAtlas.Cbor

/-- A data item as it was written, without tags. -/
inductive Item where
  | unsigned (width : Width) (n : Nat)
  | negative (n : Nat)
  | bytes (bs : List UInt8)
  | text (s : String)
  | array (items : List Item)
  | map (entries : List (Item × Item))
  | bool (b : Bool)
  | null
  | float (x : Binary64)

instance : Inhabited Item := ⟨.null⟩

/-- How many arrays, maps and tags may stand around a data item. -/
def maxDepth : Nat := 127

/-- Which integers a reader takes: those of any head, or only those of a signed or unsigned word of
eight bytes. -/
inductive Range where
  | anyHead
  | word
deriving DecidableEq, Repr

/-- How many integers below zero a signed word of eight bytes holds. -/
def signedSize : Nat := 0x8000000000000000

/-- Whether the integer `-1 - n` is in range. -/
def Range.admits (range : Range) (n : Nat) : Bool :=
  match range with
  | .anyHead => true
  | .word => n < signedSize

/-- Reads with `item` as many times as `length` says, or up to a break. Everything read takes at
least one byte, so `rounds` need not exceed the number of bytes. -/
def readUntilBreak (item : Reader α) : (rounds : Nat) → Reader (List α)
  | _, [] => .error .eof
  | 0, b :: bs => if b = breakByte then .ok ([], bs) else .error .eof
  | rounds + 1, b :: bs =>
    if b = breakByte then .ok ([], bs)
    else do
      let (x, bs) ← item (b :: bs)
      let (xs, bs) ← readUntilBreak item rounds bs
      .ok (x :: xs, bs)

def readTimes (item : Reader α) : (n : Nat) → Reader (List α)
  | 0, bs => .ok ([], bs)
  | n + 1, bs => do
    let (x, bs) ← item bs
    let (xs, bs) ← readTimes item n bs
    .ok (x :: xs, bs)

/-- Reads with `item` as often as a length says. -/
def readMany (item : Reader α) (length : Option Nat) : Reader (List α) := fun bs =>
  match length with
  | some n => readTimes item n bs
  | none => readUntilBreak item bs.length bs

def readEntry (item : Reader α) : Reader (α × α) := fun bs => do
  let (k, bs) ← item bs
  let (v, bs) ← item bs
  .ok ((k, v), bs)

/-- Reads one data item inside which `depth` further levels are allowed. -/
def readItem (range : Range) (depth : Nat) : Reader Item := fun bs =>
  match readHead bs with
  | .error e => .error e
  | .ok (.unsigned width n, bs) => .ok (.unsigned width n, bs)
  | .ok (.negative n, bs) => if range.admits n then .ok (.negative n, bs) else .error .data
  | .ok (.bytes content, bs) => .ok (.bytes content, bs)
  | .ok (.text s, bs) => .ok (.text s, bs)
  | .ok (.bool b, bs) => .ok (.bool b, bs)
  | .ok (.null, bs) => .ok (.null, bs)
  | .ok (.float x, bs) => .ok (.float x, bs)
  | .ok (.tag, bs) =>
    match depth with
    | 0 => .error .malformed
    | depth + 1 => readItem range depth bs
  | .ok (.array length, bs) =>
    match depth with
    | 0 => .error .malformed
    | depth + 1 => do
      let (items, bs) ← readMany (readItem range depth) length bs
      .ok (.array items, bs)
  | .ok (.map length, bs) =>
    match depth with
    | 0 => .error .malformed
    | depth + 1 => do
      let (entries, bs) ← readMany (readEntry (readItem range depth)) length bs
      .ok (.map entries, bs)

/-- Reads with `reader` what must be all of a byte string. -/
def readAll (reader : Reader α) (bs : List UInt8) : Except Error α :=
  match reader bs with
  | .error flaw => .error (flaw.toError bs.length)
  | .ok (x, []) => .ok x
  | .ok (_, _ :: _) => .error .malformed

namespace Item

mutual
/-- The data that an item stands for. -/
def toValue : Item → Value
  | .unsigned _ n => .int n
  | .negative n => .int (Int.negSucc n)
  | .bytes bs => .bytes bs
  | .text s => .text s
  | .array items => .array (toValues items)
  | .map entries => .ofPairs (toPairs entries)
  | .bool b => .bool b
  | .null => .null
  | .float x => .float x

def toValues : List Item → List Value
  | [] => []
  | x :: xs => toValue x :: toValues xs

/-- The data that the entries of a map stand for, as they were written. -/
def toPairs : List (Item × Item) → List (Value × Value)
  | [] => []
  | (k, v) :: es => (toValue k, toValue v) :: toPairs es
end

end Item

/-- Reads a byte string that holds one data item. -/
def Value.decode (bs : List UInt8) : Except Error Value :=
  (readAll (readItem .anyHead maxDepth) bs).map Item.toValue

end TraceAtlas.Cbor
