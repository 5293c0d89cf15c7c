import TraceAtlas.Table.Error
import TraceAtlas.Table.Record

/-!
# Table files

A table file is a sequence of frames: a length of four bytes, least significant first, and that
many bytes of payload, one record each. The first record is the header. `Log.split` cuts a file
into payloads, `Log.rowsOf` reads the payloads in order, and `Log.rows` is the two together: the
first fault decides, and a cut at the very end counts after all records in front of it.
-/

namespace TraceAtlas.Log

/-! ### Frames -/

/-- The `k` bytes of `n`, least significant first. -/
def littleEndian : Nat → Nat → List UInt8
  | 0, _ => []
  | k + 1, n => UInt8.ofNat n :: littleEndian k (n / 256)

/-- The number that bytes spell, least significant first. -/
def ofLittleEndian : List UInt8 → Nat
  | [] => 0
  | b :: bs => b.toNat + 256 * ofLittleEndian bs

/-- A payload with its length in front. -/
def frame (payload : List UInt8) : List UInt8 := littleEndian 4 payload.length ++ payload

/-- How a file ends behind its last whole frame. -/
inductive Ending where
  | complete
  /-- So many bytes of a length, but fewer than four. -/
  | shortLength (read : Nat)
  /-- A length and fewer bytes than it says. -/
  | shortPayload
deriving DecidableEq, Repr

/-- The payloads of the whole frames of a file, and how it ends. -/
def split (bs : List UInt8) : List (List UInt8) × Ending :=
  if bs.length = 0 then ([], .complete)
  else if bs.length < 4 then ([], .shortLength bs.length)
  else
    let n := ofLittleEndian (bs.take 4)
    if bs.length < 4 + n then ([], .shortPayload)
    else
      let rest := split (bs.drop (4 + n))
      ((bs.drop 4).take n :: rest.1, rest.2)
termination_by bs.length
decreasing_by simp only [List.length_drop]; omega

example : frame [7, 8] = [2, 0, 0, 0, 7, 8] := by decide
example : split [2, 0, 0, 0, 7, 8, 1, 0] = ([[7, 8]], .shortLength 2) := by decide +kernel

/-! ### Records -/

def frameOf (r : Record) : Except TableError (List UInt8) :=
  match r.encode with
  | .error e => .error (.cbor e)
  | .ok payload =>
    if payload.length < UInt32.size then .ok (frame payload) else .error (.corrupt .oversizedRecord)

/-- The rows that payloads hold; `headed` says whether a header came before them. -/
def rowsOf (table : String) : (headed : Bool) → List (List UInt8) → Except TableError (List Row)
  | _, [] => .ok []
  | headed, payload :: payloads =>
    match Record.decode payload with
    | .error e => .error (.cbor e)
    | .ok (.header version) =>
      if headed then .error (.corrupt (.duplicateHeader table))
      else if version = schemaVersion then rowsOf table true payloads
      else .error (.version table schemaVersion version)
    | .ok (.row key entry) =>
      if headed then (rowsOf table headed payloads).map ((key, entry) :: ·)
      else .error (.corrupt (.missingHeader table))

/-- Judges the end of a file whose whole frames hold `rows`. -/
def Ending.close (table : String) (rows : List Row) : Ending → Except TableError (List Row)
  | .complete => .ok rows
  | .shortLength read => .error (.corrupt (.truncatedLength table read))
  | .shortPayload => .error (.corrupt (.truncatedPayload table))

def rows (table : String) (content : List UInt8) : Except TableError (List Row) :=
  match rowsOf table false (split content).1 with
  | .error e => .error e
  | .ok rows => (split content).2.close table rows

/-- The key above all keys of the rows. Keys are words of 64 bits: behind the last of them this is no
key any more, and a row under it is refused (`frameOf`) where an addition of words would overflow. -/
def nextKey (rows : List Row) : RowKey := rows.foldl (fun n row => max n (row.1 + 1)) 0

example : nextKey [(3, .unbound "ram"), (1, .unbound "io")] = 4 := by decide

end TraceAtlas.Log
