import TraceAtlas.Proofs.FileTable

/-!
# The grammar of table files

`Accepted` says which byte strings are table files and which rows they hold, and `Offends` says how
a frame, or what is left of one, stops the reading. The reader takes a file frame by frame
(`rowsFrom_frame`), so it takes what is well formed in front whatever stands behind it
(`Accepted.rowsFrom_append`), and every file is well formed up to its end or up to a first frame
that offends (`accepted_or_rejected`). `read_grammar` puts the two together.
-/

namespace TraceAtlas
namespace Log

open Cbor

/-! ## The grammar -/

/-- Frames that hold rows, one after the other. -/
inductive RowFrames : List UInt8 → List Row → Prop
  | nil : RowFrames [] []
  | cons {payload rest : List UInt8} {key : RowKey} {entry : Entry} {rs : List Row} :
      payload.length < UInt32.size → Record.decode payload = .ok (.row key entry) →
      RowFrames rest rs → RowFrames (frame payload ++ rest) ((key, entry) :: rs)

/-- The byte strings that are table files, with the rows that they hold: nothing at all, or the
frame of a header and frames of rows behind it. -/
inductive Accepted : List UInt8 → List Row → Prop
  | empty : Accepted [] []
  | headed {payload body : List UInt8} {rs : List Row} :
      payload.length < UInt32.size → Record.decode payload = .ok (.header schemaVersion) →
      RowFrames body rs → Accepted (frame payload ++ body) rs

/-- What stands first in a rest of a file stops the reading with an error; `headed` says whether
there is a header in front of it. -/
inductive Offends (table : String) : (headed : Bool) → List UInt8 → TableError → Prop
  | shortLength {headed : Bool} {rest : List UInt8} : rest ≠ [] → rest.length < 4 →
      Offends table headed rest (.corrupt (.truncatedLength table rest.length))
  | shortPayload {headed : Bool} {n : Nat} {rest : List UInt8} : n < UInt32.size →
      rest.length < n →
      Offends table headed (littleEndian 4 n ++ rest) (.corrupt (.truncatedPayload table))
  | noRecord {headed : Bool} {payload rest : List UInt8} {e : Error} :
      payload.length < UInt32.size → Record.decode payload = .error e →
      Offends table headed (frame payload ++ rest) (.cbor e)
  | otherVersion {payload rest : List UInt8} {version : UInt32} :
      payload.length < UInt32.size → Record.decode payload = .ok (.header version) →
      version ≠ schemaVersion →
      Offends table false (frame payload ++ rest) (.version table schemaVersion version)
  | missingHeader {payload rest : List UInt8} {key : RowKey} {entry : Entry} :
      payload.length < UInt32.size → Record.decode payload = .ok (.row key entry) →
      Offends table false (frame payload ++ rest) (.corrupt (.missingHeader table))
  | secondHeader {payload rest : List UInt8} {version : UInt32} :
      payload.length < UInt32.size → Record.decode payload = .ok (.header version) →
      Offends table true (frame payload ++ rest) (.corrupt (.duplicateHeader table))

/-- A file is well formed up to a place where something stops the reading with an error. -/
def Rejected (table : String) (content : List UInt8) (e : TableError) : Prop :=
  ∃ front rs rest, content = front ++ rest ∧ Accepted front rs ∧
    Offends table (front ≠ []) rest e

variable {table : String} {headed : Bool} {content front rest payload : List UInt8} {rs : List Row}

theorem frame_append_ne_nil (payload rest : List UInt8) : frame payload ++ rest ≠ [] := by
  intro hnil
  have hlength := congrArg List.length hnil
  rw [List.length_append, length_frame, List.length_nil] at hlength
  omega

/-- Every rest of a file is empty, or cut short in its length or in its payload, or begins with a
whole frame. -/
theorem frame_cases (content : List UInt8) :
    content = [] ∨ (content ≠ [] ∧ content.length < 4) ∨
      (∃ n rest, content = littleEndian 4 n ++ rest ∧ n < UInt32.size ∧ rest.length < n) ∨
      ∃ payload rest, content = frame payload ++ rest ∧ payload.length < UInt32.size := by
  rcases eq_or_ne content [] with hempty | hsome
  · exact .inl hempty
  rcases Nat.lt_or_ge content.length 4 with hshort | hlong
  · exact .inr (.inl ⟨hsome, hshort⟩)
  have hlength : (content.take 4).length = 4 := List.length_take_of_le hlong
  have hhead := littleEndian_ofLittleEndian (content.take 4)
  have hbound := ofLittleEndian_lt (content.take 4)
  rw [hlength] at hhead hbound
  -- the number in front says how much of what is behind it is payload
  generalize ofLittleEndian (content.take 4) = n at hhead hbound
  have hcontent : content = littleEndian 4 n ++ content.drop 4 := by
    rw [hhead, List.take_append_drop]
  rcases Nat.lt_or_ge (content.drop 4).length n with hcut | hwhole
  · exact .inr (.inr (.inl ⟨n, _, hcontent, hbound, hcut⟩))
  · have hpayload : ((content.drop 4).take n).length = n := List.length_take_of_le hwhole
    refine .inr (.inr (.inr ⟨(content.drop 4).take n, (content.drop 4).drop n, ?_, ?_⟩))
    · rw [frame, hpayload, List.append_assoc, List.take_append_drop, ← hcontent]
    · rw [hpayload]
      exact hbound

/-! ## Reading on from a place in the file -/

/-- The rows that are read from a place of a file on; `headed` says whether a header came before
it. -/
def rowsFrom (table : String) (headed : Bool) (content : List UInt8) :
    Except TableError (List Row) :=
  match rowsOf table headed (split content).1 with
  | .error e => .error e
  | .ok rs => (split content).2.close table rs

theorem rows_eq_rowsFrom (table : String) (content : List UInt8) :
    rows table content = rowsFrom table false content := rfl

theorem rowsFrom_nil (table : String) (headed : Bool) : rowsFrom table headed [] = .ok [] := by
  unfold rowsFrom
  rw [split, List.length_nil, if_pos rfl]
  rfl

theorem close_map_cons (table : String) (row : Row) (rs : List Row) (ending : Ending) :
    (ending.close table rs).map (row :: ·) = ending.close table (row :: rs) := by
  cases ending <;> rfl

/-- What a whole frame does, whatever stands behind it. -/
theorem rowsFrom_frame (hpayload : payload.length < UInt32.size) (rest : List UInt8) :
    rowsFrom table headed (frame payload ++ rest) =
      match Record.decode payload with
      | .error e => .error (.cbor e)
      | .ok (.header version) =>
        if headed then .error (.corrupt (.duplicateHeader table))
        else if version = schemaVersion then rowsFrom table true rest
        else .error (.version table schemaVersion version)
      | .ok (.row key entry) =>
        if headed then (rowsFrom table headed rest).map ((key, entry) :: ·)
        else .error (.corrupt (.missingHeader table)) := by
  unfold rowsFrom
  rw [split_frame_append hpayload, rowsOf]
  rcases Record.decode payload with e | ⟨version⟩ | ⟨key, entry⟩
  · rfl
  · cases headed with
    | true => rfl
    | false => rcases eq_or_ne version schemaVersion with hversion | hother <;> simp [*]
  · cases headed with
    | false => rfl
    | true =>
        rcases rowsOf table true (split rest).1 with e | rs
        · rfl
        · exact (close_map_cons table (key, entry) rs (split rest).2).symm

theorem rowsFrom_header (hpayload : payload.length < UInt32.size)
    (hdecode : Record.decode payload = .ok (.header schemaVersion)) (rest : List UInt8) :
    rowsFrom table false (frame payload ++ rest) = rowsFrom table true rest := by
  simp [rowsFrom_frame hpayload, hdecode]

theorem rowsFrom_row {key : RowKey} {entry : Entry} (hpayload : payload.length < UInt32.size)
    (hdecode : Record.decode payload = .ok (.row key entry)) (rest : List UInt8) :
    rowsFrom table true (frame payload ++ rest) =
      (rowsFrom table true rest).map ((key, entry) :: ·) := by
  simp [rowsFrom_frame hpayload, hdecode]

/-- What offends stops the reading where it stands. -/
theorem Offends.rowsFrom_eq {e : TableError} (h : Offends table headed rest e) :
    rowsFrom table headed rest = .error e := by
  cases h with
  | shortLength hsome hshort =>
      have hlength : rest.length ≠ 0 := fun hzero => hsome (List.length_eq_zero_iff.mp hzero)
      unfold rowsFrom
      rw [split, if_neg hlength, if_pos hshort]
      rfl
  | @shortPayload headed n bytes hbound hcut =>
      have htake : (littleEndian 4 n ++ bytes).take 4 = littleEndian 4 n :=
        List.take_left' (length_littleEndian 4 n)
      have hsize : (littleEndian 4 n ++ bytes).length = 4 + bytes.length := by
        rw [List.length_append, length_littleEndian]
      unfold rowsFrom
      rw [split, if_neg (by omega), if_neg (by omega), htake, ofLittleEndian_littleEndian hbound,
        if_pos (by omega)]
      rfl
  | noRecord hpayload hdecode => rw [rowsFrom_frame hpayload, hdecode]
  | otherVersion hpayload hdecode hother => simp [rowsFrom_frame hpayload, hdecode, hother]
  | missingHeader hpayload hdecode => simp [rowsFrom_frame hpayload, hdecode]
  | secondHeader hpayload hdecode => simp [rowsFrom_frame hpayload, hdecode]

/-- Rows in front are read whatever stands behind them. -/
theorem RowFrames.rowsFrom_append (h : RowFrames front rs) (rest : List UInt8) :
    rowsFrom table true (front ++ rest) = (rowsFrom table true rest).map (rs ++ ·) := by
  induction h with
  | nil => rcases hrest : rowsFrom table true rest with e | rs <;> simp [hrest, Except.map]
  | cons hpayload hdecode _ ih =>
      rw [List.append_assoc, rowsFrom_row hpayload hdecode, ih]
      cases rowsFrom table true rest <;> rfl

/-- What is well formed in front is read whatever stands behind it. -/
theorem Accepted.rowsFrom_append (h : Accepted front rs) (rest : List UInt8) :
    rowsFrom table false (front ++ rest) =
      (rowsFrom table (front ≠ []) rest).map (rs ++ ·) := by
  cases h with
  | empty => rcases hrest : rowsFrom table false rest with e | rs <;> simp [hrest, Except.map]
  | headed hpayload hdecode hbody =>
      rw [decide_eq_true (frame_append_ne_nil _ _), List.append_assoc,
        rowsFrom_header hpayload hdecode, hbody.rowsFrom_append]

/-! ## Every file is well formed up to its end or to a frame that offends -/

/-- With a header in front, only rows do not offend. -/
theorem offends_or_row (table : String) (rest : List UInt8) :
    rest = [] ∨ (∃ e, Offends table true rest e) ∨
      ∃ payload more key entry, rest = frame payload ++ more ∧ payload.length < UInt32.size ∧
        Record.decode payload = .ok (.row key entry) := by
  rcases frame_cases rest with hempty | ⟨hsome, hshort⟩ | ⟨n, bytes, rfl, hbound, hcut⟩ |
    ⟨payload, more, rfl, hpayload⟩
  · exact .inl hempty
  · exact .inr (.inl ⟨_, .shortLength hsome hshort⟩)
  · exact .inr (.inl ⟨_, .shortPayload hbound hcut⟩)
  · rcases hdecode : Record.decode payload with e | ⟨version⟩ | ⟨key, entry⟩
    · exact .inr (.inl ⟨_, .noRecord hpayload hdecode⟩)
    · exact .inr (.inl ⟨_, .secondHeader hpayload hdecode⟩)
    · exact .inr (.inr ⟨payload, more, key, entry, rfl, hpayload, hdecode⟩)

/-- With no header in front, only a header of the schema's version does not offend. -/
theorem offends_or_header (table : String) (rest : List UInt8) :
    rest = [] ∨ (∃ e, Offends table false rest e) ∨
      ∃ payload more, rest = frame payload ++ more ∧ payload.length < UInt32.size ∧
        Record.decode payload = .ok (.header schemaVersion) := by
  rcases frame_cases rest with hempty | ⟨hsome, hshort⟩ | ⟨n, bytes, rfl, hbound, hcut⟩ |
    ⟨payload, more, rfl, hpayload⟩
  · exact .inl hempty
  · exact .inr (.inl ⟨_, .shortLength hsome hshort⟩)
  · exact .inr (.inl ⟨_, .shortPayload hbound hcut⟩)
  · rcases hdecode : Record.decode payload with e | ⟨version⟩ | ⟨key, entry⟩
    · exact .inr (.inl ⟨_, .noRecord hpayload hdecode⟩)
    · rcases eq_or_ne version schemaVersion with rfl | hother
      · exact .inr (.inr ⟨payload, more, rfl, hpayload, hdecode⟩)
      · exact .inr (.inl ⟨_, .otherVersion hpayload hdecode hother⟩)
    · exact .inr (.inl ⟨_, .missingHeader hpayload hdecode⟩)

theorem exists_rowFrames (table : String) (content : List UInt8) :
    ∃ front rs rest, content = front ++ rest ∧ RowFrames front rs ∧
      (rest = [] ∨ ∃ e, Offends table true rest e) := by
  -- what stands behind a frame is shorter than the frame with it
  induction hn : content.length using Nat.strong_induction_on generalizing content with
  | _ n ih =>
      rcases offends_or_row table content with hempty | hoffends |
        ⟨payload, more, key, entry, rfl, hpayload, hdecode⟩
      · exact ⟨[], [], content, rfl, .nil, .inl hempty⟩
      · exact ⟨[], [], content, rfl, .nil, .inr hoffends⟩
      · have hshorter : more.length < n := by
          rw [← hn, List.length_append, length_frame]
          omega
        obtain ⟨front, rs, rest, rfl, hfront, hrest⟩ := ih _ hshorter more rfl
        refine ⟨frame payload ++ front, (key, entry) :: rs, rest, ?_, ?_, hrest⟩
        · rw [List.append_assoc]
        · exact .cons hpayload hdecode hfront

theorem accepted_or_rejected (table : String) (content : List UInt8) :
    (∃ rs, Accepted content rs) ∨ ∃ e, Rejected table content e := by
  rcases offends_or_header table content with rfl | ⟨e, hoffends⟩ |
    ⟨payload, body, rfl, hpayload, hdecode⟩
  · exact .inl ⟨[], .empty⟩
  · exact .inr ⟨e, [], [], content, rfl, .empty, by simpa using hoffends⟩
  · obtain ⟨front, rs, rest, rfl, hfront, rfl | ⟨e, hoffends⟩⟩ := exists_rowFrames table body
    · rw [List.append_nil]
      exact .inl ⟨rs, .headed hpayload hdecode hfront⟩
    · have hsome := frame_append_ne_nil payload front
      refine .inr ⟨e, frame payload ++ front, rs, rest, (List.append_assoc ..).symm, ?_, ?_⟩
      · exact .headed hpayload hdecode hfront
      · rw [decide_eq_true hsome]
        exact hoffends

/-! ## The reader and the grammar -/

theorem Accepted.rows_eq (h : Accepted content rs) (table : String) :
    rows table content = .ok rs := by
  have happend : rowsFrom table false (content ++ []) = _ := h.rowsFrom_append []
  rw [List.append_nil, rowsFrom_nil] at happend
  rw [rows_eq_rowsFrom, happend]
  simp [Except.map]

theorem Rejected.rows_eq {e : TableError} (h : Rejected table content e) :
    rows table content = .error e := by
  obtain ⟨front, rs, rest, rfl, hfront, hoffends⟩ := h
  rw [rows_eq_rowsFrom, hfront.rowsFrom_append, hoffends.rowsFrom_eq]
  rfl

theorem rows_eq_ok_iff : rows table content = .ok rs ↔ Accepted content rs := by
  refine ⟨fun hrows => ?_, fun h => h.rows_eq table⟩
  rcases accepted_or_rejected table content with ⟨rs', h⟩ | ⟨e, h⟩
  · obtain rfl : rs = rs' := Except.ok.inj (hrows.symm.trans (h.rows_eq table))
    exact h
  · cases hrows.symm.trans h.rows_eq

theorem rows_eq_error_iff {e : TableError} :
    rows table content = .error e ↔ Rejected table content e := by
  refine ⟨fun hrows => ?_, Rejected.rows_eq⟩
  rcases accepted_or_rejected table content with ⟨rs', h⟩ | ⟨e', h⟩
  · cases hrows.symm.trans (h.rows_eq table)
  · obtain rfl : e = e' := Except.error.inj (hrows.symm.trans h.rows_eq)
    exact h

theorem RowFrames.append {more : List Row} (h : RowFrames front rs) (hmore : RowFrames rest more) :
    RowFrames (front ++ rest) (rs ++ more) := by
  induction h with
  | nil => exact hmore
  | cons hpayload hdecode _ ih =>
      rw [List.append_assoc]
      exact .cons hpayload hdecode ih

theorem Accepted.append {more : List Row} (h : Accepted front rs) (hsome : front ≠ [])
    (hmore : RowFrames rest more) : Accepted (front ++ rest) (rs ++ more) := by
  cases h with
  | empty => exact absurd rfl hsome
  | headed hpayload hdecode hbody =>
      rw [List.append_assoc]
      exact .headed hpayload hdecode (hbody.append hmore)

end Log

namespace FileTable

open Log

/-- **A table file is accepted exactly if it is in the grammar, and rejected for the first frame
that offends.** Frames of rows that are added to an accepted file that is not empty are read as
their rows behind all others. -/
theorem read_grammar {d : Disk} {path : String} {content : List UInt8}
    (hread : d.read path = .ok content) (table : String) :
    (∀ rs, read d path table = .ok rs ↔ Accepted content rs) ∧
    (∀ e, read d path table = .error e ↔ Rejected table content e) ∧
    ∀ {grown : Disk} {added : List UInt8} {rs more : List Row}, Accepted content rs →
      content ≠ [] → RowFrames added more → grown.read path = .ok (content ++ added) →
      read grown path table = .ok (rs ++ more) := by
  have hrows : ∀ {d : Disk} {content : List UInt8}, d.read path = .ok content →
      read d path table = Log.rows table content := by
    intro d content hcontent
    unfold read
    rw [hcontent]
    rfl
  refine ⟨fun rs => ?_, fun e => ?_, fun haccepted hsome hadded hgrown => ?_⟩
  · rw [hrows hread, rows_eq_ok_iff]
  · rw [hrows hread, rows_eq_error_iff]
  · rw [hrows hgrown, rows_eq_ok_iff]
    exact haccepted.append hsome hadded

/-- A disk with one file and nothing else. -/
def loneFile (content : List UInt8) : Disk := ⟨SortedMap.empty.insert ["ram.log"] (.file content)⟩

theorem read_loneFile (content : List UInt8) : (loneFile content).read "ram.log" = .ok content := by
  rfl

/-- A header is read with the row behind it, and two bytes behind it are no length. -/
theorem read_grammar_loneFile :
    let header := frame (Record.header schemaVersion).toValue.document
    let row := frame (Record.row 0 (.unbound "ram")).toValue.document
    read (loneFile (header ++ row)) "ram.log" "ram" = .ok [(0, .unbound "ram")] ∧
    read (loneFile (header ++ [1, 0])) "ram.log" "ram" =
      .error (.corrupt (.truncatedLength "ram" 2)) := by
  intro header row
  have hheader : Accepted header [] := by
    have h : Accepted (header ++ []) [] := .headed (by decide) (by decide) .nil
    rwa [List.append_nil] at h
  have hrow : RowFrames row [(0, .unbound "ram")] := by
    have h : RowFrames (row ++ []) [(0, .unbound "ram")] :=
      .cons (by decide) (by decide +kernel) .nil
    rwa [List.append_nil] at h
  constructor
  · obtain ⟨-, -, hgrown⟩ := read_grammar (read_loneFile header) "ram"
    exact hgrown hheader (by decide) hrow (read_loneFile _)
  · obtain ⟨-, herror, -⟩ := read_grammar (read_loneFile (header ++ [1, 0])) "ram"
    exact (herror _).mpr ⟨header, [], [1, 0], rfl, hheader, .shortLength (by decide) (by decide)⟩

end FileTable
end TraceAtlas
