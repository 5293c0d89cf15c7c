import TraceAtlas.Cbor.Encode
import TraceAtlas.SortedMap

/-!
# The canonical order of map keys

The place of a key among others is read off its `Value.rank`: the major type first, then the
magnitude of an integer or the length of a string, array or map, then bytes. `Value.ofPairs`
builds a map entry by entry in that order, so how a map was filled does not show in its bytes.
-/

namespace TraceAtlas.Cbor.Value

/-- The order key of a value: major type, then magnitude or length, then bytes. -/
def rank : Value → Nat × Nat × List UInt8
  | .int (.ofNat n) => (0, n, [])
  | .int (.negSucc n) => (1, n + 1, [])
  | .bytes bs => (2, bs.length, bs)
  | .text s => (3, (Utf8.encode s).length, Utf8.encode s)
  | .array items => (4, items.length, bytesOf (.array items))
  | .map entries => (5, entries.length, bytesOf (.map entries))
  | v => (7, 0, bytesOf v)

/-- The canonical order of map keys. -/
def order (v w : Value) : Ordering :=
  (compare v.rank.1 w.rank.1).then <|
    (compare v.rank.2.1 w.rank.2.1).then (compare v.rank.2.2 w.rank.2.2)

/-- Entries in canonical key order; a later entry of the same key replaces the value. -/
def sortEntries (pairs : List (Value × Value)) : List (Value × Value) :=
  pairs.foldl (fun es e => insertSorted order e.1 e.2 es) []

def ofPairs (pairs : List (Value × Value)) : Value := .map (sortEntries pairs)

/-- The map of distinct texts to their places among them. -/
def numbered (texts : List String) : Value :=
  .ofPairs (texts.eraseDups.zipIdx.map fun t => (.text t.1, .int t.2))

end TraceAtlas.Cbor.Value
