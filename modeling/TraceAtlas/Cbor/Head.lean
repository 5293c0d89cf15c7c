import TraceAtlas.Cbor.Encode

/-!
# Reading heads

A data item starts with a head: a major type and an argument, in one to nine bytes. `readHead`
reads a head together with whatever belongs to it alone, so a string comes with its bytes and a
number with its value, while an array or a map comes only with its length. Heads need not be the
shortest possible, and a string may be given in chunks that a break byte ends.

Readers consume the front of a byte list and return the rest, or the `Flaw` they met. What a flaw
comes to as an error may depend on where it was met, so a flaw says how many bytes were left.
-/

namespace TraceAtlas.Cbor

/-- What a reader meets that it cannot read. -/
inductive Flaw where
  | eof
  | malformed
  | data
  /-- A text is longer than the bytes that are left. -/
  | textPastEnd (length left : Nat)
deriving DecidableEq, Repr

/-- The error that a flaw comes to in an input of so many bytes. A text may be cut off, but it may
not claim to end at a position that no word of eight bytes can hold. -/
def Flaw.toError (size : Nat) : Flaw → Error
  | .eof => .eof
  | .malformed => .malformed
  | .data => .data
  | .textPastEnd length left => if size - left + length < UInt64.size then .eof else .malformed

/-- Reads something off the front of a byte list and returns the rest. -/
abbrev Reader (α : Type) := List UInt8 → Except Flaw (α × List UInt8)

/-- How many bytes hold the argument of a head; a small argument inside the first byte counts as
one. -/
inductive Width where
  | one | two | four | eight
deriving DecidableEq, Repr

/-- The front of a data item, with its own content. -/
inductive Head where
  | unsigned (width : Width) (n : Nat)
  /-- The integer `-1 - n`. -/
  | negative (n : Nat)
  | bytes (bs : List UInt8)
  | text (s : String)
  /-- An array of so many items, or up to a break. -/
  | array (length : Option Nat)
  /-- A map of so many entries, or up to a break. -/
  | map (length : Option Nat)
  | tag
  | bool (b : Bool)
  | null
  | float (x : Binary64)
deriving DecidableEq

/-- The byte that ends content of indefinite length. -/
def breakByte : UInt8 := 0xff

def take (n : Nat) : Reader (List UInt8) := fun bs =>
  if n ≤ bs.length then .ok (bs.take n, bs.drop n) else .error .eof

def readNumber (k : Nat) : Reader Nat := fun bs => do
  let (digits, bs) ← take k bs
  .ok (ofBigEndian digits, bs)

/-- The argument of a head whose first byte ends in the five bits `info`. -/
def readArgument (info : Nat) : Reader (Width × Nat) := fun bs =>
  if info < 24 then .ok ((.one, info), bs)
  else if info = 24 then do
    let (n, bs) ← readNumber 1 bs
    .ok ((.one, n), bs)
  else if info = 25 then do
    let (n, bs) ← readNumber 2 bs
    .ok ((.two, n), bs)
  else if info = 26 then do
    let (n, bs) ← readNumber 4 bs
    .ok ((.four, n), bs)
  else if info = 27 then do
    let (n, bs) ← readNumber 8 bs
    .ok ((.eight, n), bs)
  else .error .malformed

/-- The five bits that announce indefinite length. -/
def indefinite : Nat := 31

/-- The chunks of a string of the given major type, up to the break. Every chunk takes at least one
byte, so `rounds` need not exceed the number of bytes. -/
def readChunks (major : Nat) : (rounds : Nat) → Reader (List UInt8)
  | _, [] => .error .eof
  | 0, b :: bs => if b = breakByte then .ok ([], bs) else .error .eof
  | rounds + 1, b :: bs =>
    if b = breakByte then .ok ([], bs)
    else if b.toNat / 32 = major then do
      let ((_, n), bs) ← readArgument (b.toNat % 32) bs
      let (chunk, bs) ← take n bs
      let (more, bs) ← readChunks major rounds bs
      .ok (chunk ++ more, bs)
    else .error .malformed

def readBytes (info : Nat) : Reader (List UInt8) := fun bs =>
  if info = indefinite then readChunks 2 bs.length bs
  else do
    let ((_, n), bs) ← readArgument info bs
    take n bs

def readTextBytes (info : Nat) : Reader (List UInt8) := fun bs =>
  if info = indefinite then readChunks 3 bs.length bs
  else do
    let ((_, n), bs) ← readArgument info bs
    if n ≤ bs.length then .ok (bs.take n, bs.drop n) else .error (.textPastEnd n bs.length)

def readLength (info : Nat) : Reader (Option Nat) := fun bs =>
  if info = indefinite then .ok (none, bs)
  else do
    let ((_, n), bs) ← readArgument info bs
    .ok (some n, bs)

/-- What follows a first byte of major type seven. -/
def readSimple (info : Nat) : Reader Head := fun bs =>
  if info = 20 then .ok (.bool false, bs)
  else if info = 21 then .ok (.bool true, bs)
  else if info = 22 ∨ info = 23 then .ok (.null, bs)
  else if info = 25 then do
    let (n, bs) ← readNumber 2 bs
    .ok (.float (Format.half.widen n), bs)
  else if info = 26 then do
    let (n, bs) ← readNumber 4 bs
    .ok (.float (Format.single.widen n), bs)
  else if info = 27 then do
    let (n, bs) ← readNumber 8 bs
    .ok (.float (Binary64.ofBits (UInt64.ofNat n)), bs)
  else .error .malformed

def readHead : Reader Head
  | [] => .error .eof
  | b :: bs =>
    let info := b.toNat % 32
    match b.toNat / 32 with
    | 0 => do
      let ((width, n), bs) ← readArgument info bs
      .ok (.unsigned width n, bs)
    | 1 => do
      let ((_, n), bs) ← readArgument info bs
      .ok (.negative n, bs)
    | 2 => do
      let (content, bs) ← readBytes info bs
      .ok (.bytes content, bs)
    | 3 => do
      let (content, bs) ← readTextBytes info bs
      match Utf8.decode content with
      | some s => .ok (.text s, bs)
      | none => .error .malformed
    | 4 => do
      let (length, bs) ← readLength info bs
      .ok (.array length, bs)
    | 5 => do
      let (length, bs) ← readLength info bs
      .ok (.map length, bs)
    | 6 => do
      let (_, bs) ← readArgument info bs
      .ok (.tag, bs)
    | _ => readSimple info bs

end TraceAtlas.Cbor
