import TraceAtlas.Cbor.Item

/-!
# Reading data of an expected shape

Records and sequences of a known shape are read straight off the bytes, and the first fault in
byte order decides the error: bytes that are no data item are `malformed`, a well-formed item of
the wrong kind is `data`.

A sequence is walked with a `Cursor`, which knows how many items are left. Fields of a record are
named by text or bytes, or by their position, and a `FieldName` is what a key comes to once it has
been matched against the names of a record.
-/

namespace TraceAtlas.Cbor

/-- Reads a head past any tags, and returns how many levels are allowed inside. -/
def readUntagged (depth : Nat) : Reader (Head × Nat) := fun bs =>
  match readHead bs with
  | .error e => .error e
  | .ok (.tag, bs) =>
    match depth with
    | 0 => .error .malformed
    | depth + 1 => readUntagged depth bs
  | .ok (h, bs) => .ok ((h, depth), bs)

/-- The flaw of a head of the wrong kind: an array or a map is refused for its depth first. -/
def Head.mismatch (h : Head) (depth : Nat) : Flaw :=
  match h, depth with
  | .array _, 0 => .malformed
  | .map _, 0 => .malformed
  | _, _ => .data

/-! ### Scalars -/

def Head.natBelow? (bound : Nat) : Head → Option Nat
  | .unsigned _ n => if n < bound then some n else none
  | _ => none

def Head.int64? : Head → Option Int64
  | .unsigned _ n => if n < signedSize then some (Int64.ofNat n) else none
  | .negative n => if n < signedSize then some (Int64.ofInt (Int.negSucc n)) else none
  | _ => none

/-- The text of a head; bytes count as text if they are valid. -/
def Head.text? : Head → Option String
  | .text s => some s
  | .bytes bs => Utf8.decode bs
  | _ => none

/-- Reads a data item that `accept` understands by its head alone. -/
def readScalar (accept : Head → Option α) (depth : Nat) : Reader α := fun bs => do
  let ((h, depth), bs) ← readUntagged depth bs
  match accept h with
  | some x => .ok (x, bs)
  | none => .error (h.mismatch depth)

def readNatBelow (bound : Nat) (depth : Nat) : Reader Nat := readScalar (Head.natBelow? bound) depth

def readInt64 (depth : Nat) : Reader Int64 := readScalar Head.int64? depth

def readText (depth : Nat) : Reader String := readScalar Head.text? depth

/-! ### Sequences -/

/-- What is left of a sequence: a number of items, or all up to a break. -/
abbrev Cursor := Option Nat

/-- Steps to the next item, or finds that there is none. A break is left standing. -/
def Cursor.next : Cursor → List UInt8 → Except Flaw (Option Cursor)
  | some 0, _ => .ok none
  | some (n + 1), _ => .ok (some (some n))
  | none, [] => .error .eof
  | none, b :: _ => .ok (if b = breakByte then none else some none)

/-- Ends a sequence: nothing may be left of it but its break. -/
def Cursor.finish : Cursor → List UInt8 → Except Flaw (List UInt8)
  | some 0, bs => .ok bs
  | some _, _ => .error .malformed
  | none, [] => .error .eof
  | none, b :: bs => if b = breakByte then .ok bs else .error .malformed

/-- Reads the next item of a sequence that must have one. -/
def readElement (item : Reader α) (cursor : Cursor) : Reader (α × Cursor) := fun bs => do
  match ← cursor.next bs with
  | none => .error .data
  | some cursor =>
    let (x, bs) ← item bs
    .ok ((x, cursor), bs)

/-! ### Records -/

/-- What a key names: a field by its position, or nothing that the record has. -/
inductive FieldName where
  | field (position : Nat)
  | unknown
deriving DecidableEq, Repr

def FieldName.ofText (names : List String) (s : String) : FieldName :=
  match names.findIdx? (· = s) with
  | some i => .field i
  | none => .unknown

def FieldName.ofBytes (names : List String) (bs : List UInt8) : FieldName :=
  match names.findIdx? (Utf8.encode · = bs) with
  | some i => .field i
  | none => .unknown

def FieldName.ofPosition (names : List String) (n : Nat) : FieldName :=
  if n < names.length then .field n else .unknown

/-- The field that a key names by text, bytes or position. -/
def Head.fieldName? (names : List String) : Head → Option FieldName
  | .text s => some (.ofText names s)
  | .bytes bs => some (.ofBytes names bs)
  | .unsigned _ n => some (.ofPosition names n)
  | _ => none

/-- The field that a key of a record read beforehand names. Such a key may give a position only in
one byte or in eight. -/
def Item.fieldName? (names : List String) : Item → Option FieldName
  | .text s => some (.ofText names s)
  | .bytes bs => some (.ofBytes names bs)
  | .unsigned .one n => some (.ofPosition names n)
  | .unsigned .eight n => some (.ofPosition names n)
  | _ => none

def stepTimes (step : σ → Reader σ) : (n : Nat) → σ → Reader σ
  | 0, s, bs => .ok (s, bs)
  | n + 1, s, bs => do
    let (s, bs) ← step s bs
    stepTimes step n s bs

/-- Takes steps up to a break. Every step takes at least one byte, so `rounds` need not exceed the
number of bytes. -/
def stepUntilBreak (step : σ → Reader σ) : (rounds : Nat) → σ → Reader σ
  | _, _, [] => .error .eof
  | 0, s, b :: bs => if b = breakByte then .ok (s, bs) else .error .eof
  | rounds + 1, s, b :: bs =>
    if b = breakByte then .ok (s, bs)
    else do
      let (s, bs) ← step s (b :: bs)
      stepUntilBreak step rounds s bs

/-- Takes as many steps as a cursor has items left. -/
def stepMany (step : σ → Reader σ) (cursor : Cursor) (s : σ) : Reader σ := fun bs =>
  match cursor with
  | some n => stepTimes step n s bs
  | none => stepUntilBreak step bs.length s bs

/-! ### Scalars read beforehand -/

namespace Item

def natBelow? (bound : Nat) : Item → Option Nat
  | .unsigned _ n => if n < bound then some n else none
  | _ => none

def int64? : Item → Option Int64
  | .unsigned _ n => if n < signedSize then some (Int64.ofNat n) else none
  | .negative n => if n < signedSize then some (Int64.ofInt (Int.negSucc n)) else none
  | _ => none

def text? : Item → Option String
  | .text s => some s
  | .bytes bs => Utf8.decode bs
  | _ => none

end Item
end TraceAtlas.Cbor
