import TraceAtlas.Proofs.AppendOnly
import TraceAtlas.Proofs.FileGrammar

/-!
# Cut table files

A file that successive creations have written is known to the byte: the frame of the header and the
frames of the rows, keyed one after the other (`Written`). When it is cut, the cut is between two
frames or inside one (`flatMap_cut`), and a frame that is cut inside offends
(`exists_offends_take`). So a cut file is read as the rows in front of the cut or is found corrupt
(`read_cut`).
-/

namespace TraceAtlas
namespace Log

variable {table : String} {payload : List UInt8} {rows : List Row} {n : Nat}

/-! ## Files as they are written -/

def headerFrame : List UInt8 := frame (Record.header schemaVersion).toValue.document

def rowFrame (row : Row) : List UInt8 := frame (Record.row row.1 row.2).toValue.document

/-- The file of a table with these rows. -/
def fileOf (rows : List Row) : List UInt8 := headerFrame ++ rows.flatMap rowFrame

theorem fileOf_append (rows more : List Row) :
    fileOf (rows ++ more) = fileOf rows ++ more.flatMap rowFrame := by
  rw [fileOf, List.flatMap_append, ← List.append_assoc, ← fileOf]

theorem Fits.decode_eq {row : Row} (h : Fits row) :
    Record.decode (Record.row row.1 row.2).toValue.document = .ok (.row row.1 row.2) := by
  have hname := Record.length_name_le row.1 row.2
  have hsizes : UInt32.size < UInt64.size := by decide
  have hlength := h.length_lt
  exact Record.decode_document_row h.key_lt (by omega)

theorem rowFrames_flatMap (h : ∀ row ∈ rows, Fits row) :
    RowFrames (rows.flatMap rowFrame) rows := by
  induction rows with
  | nil => exact .nil
  | cons row rows ih =>
      obtain ⟨hrow, hrows⟩ := List.forall_mem_cons.mp h
      exact .cons hrow.length_lt hrow.decode_eq (ih hrows)

theorem accepted_fileOf (h : ∀ row ∈ rows, Fits row) : Accepted (fileOf rows) rows := by
  obtain ⟨payload, hencode, hlength, hdecode⟩ := encode_header
  obtain ⟨-, rfl⟩ := Record.encode_eq_ok hencode
  exact .headed hlength hdecode (rowFrames_flatMap h)

theorem fileOf_ne_nil (rows : List Row) : fileOf rows ≠ [] := frame_append_ne_nil _ _

/-! ## Cuts -/

/-- A cut of blocks is between two of them or inside one. -/
theorem flatMap_cut {α β : Type} (f : α → List β) (blocks : List α)
    (h : n ≤ (blocks.flatMap f).length) :
    (∃ k ≤ blocks.length, n = ((blocks.take k).flatMap f).length) ∨
      ∃ front block back m, blocks = front ++ block :: back ∧ m ≠ 0 ∧ m < (f block).length ∧
        n = (front.flatMap f).length + m := by
  induction blocks generalizing n with
  | nil => exact .inl ⟨0, Nat.le_refl 0, Nat.le_zero.mp h⟩
  | cons block blocks ih =>
      rw [List.flatMap_cons, List.length_append] at h
      rcases Nat.lt_or_ge n (f block).length with hinside | hbehind
      · rcases Nat.eq_zero_or_pos n with rfl | hpos
        · exact .inl ⟨0, Nat.zero_le _, rfl⟩
        · refine .inr ⟨[], block, blocks, n, rfl, Nat.ne_of_gt hpos, hinside, ?_⟩
          rw [List.flatMap_nil, List.length_nil, Nat.zero_add]
      · -- the same place, counted from the end of the first block
        obtain ⟨m, rfl⟩ := Nat.exists_eq_add_of_le hbehind
        rcases ih (Nat.le_of_add_le_add_left h) with ⟨k, hk, rfl⟩ |
          ⟨front, inner, back, m, rfl, hm, hinside, rfl⟩
        · refine .inl ⟨k + 1, Nat.succ_le_succ hk, ?_⟩
          rw [List.take_succ_cons, List.flatMap_cons, List.length_append]
        · refine .inr ⟨block :: front, inner, back, m, rfl, hm, hinside, ?_⟩
          rw [List.flatMap_cons, List.length_append, Nat.add_assoc]

/-- A frame that is cut inside offends. -/
theorem exists_offends_take (table : String) (headed : Bool)
    (hpayload : payload.length < UInt32.size) (hn : n ≠ 0)
    (hcut : n < (frame payload).length) :
    ∃ c, Offends table headed ((frame payload).take n) (.corrupt c) := by
  have htake : ((frame payload).take n).length = n := List.length_take_of_le (Nat.le_of_lt hcut)
  rcases Nat.lt_or_ge n 4 with hshort | hlong
  · refine ⟨_, .shortLength ?_ (by omega)⟩
    intro hnone
    rw [hnone] at htake
    exact hn htake.symm
  · have hlength : (littleEndian 4 payload.length).length = 4 := length_littleEndian 4 _
    have hsplit : (frame payload).take n =
        littleEndian 4 payload.length ++ payload.take (n - 4) := by
      rw [frame, List.take_append, hlength, List.take_of_length_le (by omega)]
    rw [length_frame] at hcut
    rw [hsplit]
    refine ⟨_, .shortPayload hpayload ?_⟩
    rw [List.length_take]
    omega

theorem take_fileOf (rows : List Row) (k : Nat) :
    (fileOf rows).take (fileOf (rows.take k)).length = fileOf (rows.take k) := by
  have hsplit := fileOf_append (rows.take k) (rows.drop k)
  rw [List.take_append_drop] at hsplit
  rw [hsplit, List.take_left' rfl]

/-- A file that is cut anywhere but at the end of a frame is corrupt. -/
theorem exists_rejected_take (table : String) (hfits : ∀ row ∈ rows, Fits row)
    (hn : n ≤ (fileOf rows).length) (hsome : n ≠ 0)
    (hinside : ∀ k ≤ rows.length, n ≠ (fileOf (rows.take k)).length) :
    ∃ c, Rejected table ((fileOf rows).take n) (.corrupt c) := by
  rcases Nat.lt_or_ge n headerFrame.length with hheader | hbehind
  · obtain ⟨payload, hencode, hlength, -⟩ := encode_header
    obtain ⟨-, rfl⟩ := Record.encode_eq_ok hencode
    obtain ⟨c, hoffends⟩ := exists_offends_take table false hlength hsome hheader
    refine ⟨c, [], [], _, rfl, .empty, ?_⟩
    rw [fileOf, List.take_append_of_le_length (Nat.le_of_lt hheader)]
    exact hoffends
  · obtain ⟨m, rfl⟩ := Nat.exists_eq_add_of_le hbehind
    rw [fileOf, List.length_append] at hn
    rcases flatMap_cut rowFrame rows (Nat.le_of_add_le_add_left hn) with ⟨k, hk, rfl⟩ |
      ⟨front, row, back, m, rfl, hm, hcut, rfl⟩
    · exact absurd (List.length_append ..).symm (hinside k hk)
    · have hrow := (hfits row (by simp)).length_lt
      obtain ⟨c, hoffends⟩ := exists_offends_take table true hrow hm hcut
      have hfront : Accepted (fileOf front) front :=
        accepted_fileOf fun r hr => hfits r (List.mem_append_left _ hr)
      refine ⟨c, fileOf front, front, (rowFrame row).take m, ?_, hfront, ?_⟩
      · rw [fileOf_append, ← Nat.add_assoc, ← List.length_append, ← fileOf,
          List.take_length_add_append, List.flatMap_cons,
          List.take_append_of_le_length (Nat.le_of_lt hcut)]
      · rw [decide_eq_true (fileOf_ne_nil front)]
        exact hoffends

end Log

/-! ## Creations one after the other -/

/-- Creates a row for every entry in turn, and answers what each creation answers. -/
def EntryTable.createEach {σ : Type} [EntryTable σ] :
    List Entry → σ → List (Except TableError RowKey) × σ
  | [], t => ([], t)
  | entry :: entries, t =>
    let (answer, t) := create entry t
    let (answers, t) := createEach entries t
    (answer :: answers, t)

/-- The rows of entries that were created in a table that had no rows. -/
def Row.numbered (entries : List Entry) : List Row := entries.mapIdx Prod.mk

namespace FileTable

variable {d : Disk} {root name : String}

/-- A table of the name can be begun: its directory is there or can be made, and where its file
would be stands nothing or an empty file. -/
def New (d : Disk) (root name : String) : Prop :=
  ∃ made place, d.makeDirectories (directory root) = (.ok (), made) ∧
    made.locate (file root name) = .ok place ∧ made.isFresh (file root name) = .ok true

theorem New.openAt (h : New d root name) : ∃ e,
    openAt d root name =
      ⟨.ok ⟨name, file root name, some []⟩, e, [.tableCreated name (file root name)]⟩ ∧
    e.read (file root name) = .ok Log.headerFrame := by
  obtain ⟨made, place, hmade, hlocate, hfresh⟩ := h
  have hnode : made.node? place ≠ some .directory := by
    intro hdirectory
    simp [Disk.isFresh, hlocate, hdirectory] at hfresh
  obtain ⟨payload, hencode, hlength, hdecode⟩ := Log.encode_header
  obtain ⟨-, rfl⟩ := Record.encode_eq_ok hencode
  have hframe := Log.frameOf_of_encode hencode hlength
  obtain ⟨e, hdisk⟩ := Disk.exists_update hlocate hnode (· ++ Log.headerFrame)
  have happend : append made (file root name) (.header schemaVersion) = .ok e :=
    append_eq_ok.mpr ⟨_, hframe, hdisk⟩
  obtain ⟨old, happends, hempty, -⟩ := Disk.append_appends hdisk
  obtain rfl := hempty hfresh
  have hread : read e (file root name) name = .ok [] :=
    read_eq_ok.mpr ⟨_, happends.read, Log.rows_frame_header hlength hdecode⟩
  exact ⟨e, openAt_of_fresh hmade hfresh happend hread, happends.read⟩

end FileTable

namespace FileOnDisk

open FileTable

variable {root name : String} {t : FileOnDisk} {entries written : List Entry} {entry : Entry}

/-- The handle is on the file of a table, and this file holds the rows of the entries as they are
written, and nothing else. -/
structure Written (root name : String) (t : FileOnDisk) (entries : List Entry) : Prop where
  name_eq : t.table.name = name
  path_eq : t.table.path = file root name
  content : t.disk.read (file root name) = .ok (Log.fileOf (Row.numbered entries))
  fits : ∀ row ∈ Row.numbered entries, Log.Fits row

theorem numbered_concat (written : List Entry) (entry : Entry) :
    Row.numbered (written ++ [entry]) = Row.numbered written ++ [(written.length, entry)] := by
  simp [Row.numbered]

theorem map_fst_numbered (entries : List Entry) :
    (Row.numbered entries).map Prod.fst = List.range entries.length := by
  apply List.ext_getElem <;> simp [Row.numbered]

/-- A creation adds the frame of its row and answers the next key. -/
theorem Written.create (h : Written root name t written)
    (hfits : Log.Fits (written.length, entry)) :
    (FileOnDisk.create entry t).1 = .ok written.length ∧
      Written root name (FileOnDisk.create entry t).2 (written ++ [entry]) := by
  have hkey : Log.nextKey (Row.numbered written) = written.length :=
    Log.nextKey_of_range (map_fst_numbered written)
  have hrows := (Log.accepted_fileOf h.fits).rows_eq name
  have hframe : Log.frameOf (.row written.length entry) =
      .ok (Log.rowFrame (written.length, entry)) :=
    Log.frameOf_of_encode (Record.encode_row hfits.key_lt) hfits.length_lt
  obtain ⟨place, hlocate, hfile⟩ := Disk.read_eq_ok.mp h.content
  obtain ⟨e, hdisk⟩ := Disk.exists_update hlocate (by simp [hfile])
    (· ++ Log.rowFrame (written.length, entry))
  have hcreate : t.table.createRow t.disk entry = .ok (written.length, e) := by
    rw [createRow_eq_ok, h.path_eq, h.name_eq]
    exact ⟨_, read_eq_ok.mpr ⟨_, h.content, hrows⟩, hkey.symm, append_eq_ok.mpr ⟨_, hframe, hdisk⟩⟩
  obtain ⟨old, happends, -, hold⟩ := Disk.append_appends hdisk
  obtain rfl := hold _ h.content
  unfold FileOnDisk.create
  rw [hcreate]
  refine ⟨rfl, h.name_eq, h.path_eq, ?_, ?_⟩
  · rw [numbered_concat, Log.fileOf_append, List.flatMap_singleton]
    exact happends.read
  · rw [numbered_concat]
    intro row hrow
    rcases List.mem_append.mp hrow with hrow | hrow
    · exact h.fits row hrow
    · rw [List.mem_singleton.mp hrow]
      exact hfits

theorem Written.createEach (h : Written root name t written)
    (hfits : ∀ row ∈ Row.numbered (written ++ entries), Log.Fits row) :
    (EntryTable.createEach entries t).1 = (List.range' written.length entries.length).map .ok ∧
      Written root name (EntryTable.createEach entries t).2 (written ++ entries) := by
  induction entries generalizing t written with
  | nil =>
      rw [List.append_nil]
      exact ⟨rfl, h⟩
  | cons entry entries ih =>
      rw [List.append_cons] at hfits ⊢
      have hentry : (written.length, entry) ∈ Row.numbered (written ++ [entry] ++ entries) := by
        rw [Row.numbered, List.mapIdx_append, ← Row.numbered, numbered_concat]
        simp
      obtain ⟨hanswer, hwritten⟩ := h.create (hfits _ hentry)
      obtain ⟨hanswers, hall⟩ := ih hwritten hfits
      rw [List.length_append, List.length_singleton] at hanswers
      refine ⟨?_, hall⟩
      rw [List.length_cons, List.range'_succ, List.map_cons, ← hanswers, ← hanswer]
      rfl

end FileOnDisk

namespace FileTable

variable {d : Disk} {root name : String} {entries : List Entry}

/-- **A table file that is cut shows the cut or holds the first rows.** The creations in a new table
answer the keys in order and write the file of their rows. If the file is cut to its first `n`
bytes, then it reads as the rows whose frames are whole if `n` is the end of a frame, as no rows if
nothing is left, and as corrupt otherwise. -/
theorem read_cut (hnew : New d root name)
    (hfits : ∀ row ∈ Row.numbered entries, Log.Fits row) :
    let rows := Row.numbered entries
    ∃ t, (openAt d root name).table = .ok t ∧
      (EntryTable.createEach entries (⟨(openAt d root name).disk, t⟩ : FileOnDisk)).1 =
        (List.range entries.length).map .ok ∧
      (EntryTable.createEach entries (⟨(openAt d root name).disk, t⟩ : FileOnDisk)).2.disk.read
        (file root name) = .ok (Log.fileOf rows) ∧
      ∀ n ≤ (Log.fileOf rows).length, ∀ cut : Disk,
        cut.read (file root name) = .ok ((Log.fileOf rows).take n) →
        (n = 0 → read cut (file root name) name = .ok []) ∧
        (∀ k ≤ rows.length, n = (Log.fileOf (rows.take k)).length →
          read cut (file root name) name = .ok (rows.take k)) ∧
        (n ≠ 0 → (∀ k ≤ rows.length, n ≠ (Log.fileOf (rows.take k)).length) →
          ∃ c, read cut (file root name) name = .error (.corrupt c)) := by
  intro rows
  obtain ⟨disk, hopen, hheader⟩ := hnew.openAt
  have hstart : FileOnDisk.Written root name
      ⟨disk, ⟨name, file root name, some []⟩⟩ [] := by
    refine ⟨rfl, rfl, hheader, ?_⟩
    intro row hrow
    cases hrow
  obtain ⟨hanswers, hwritten⟩ := hstart.createEach hfits
  rw [hopen]
  refine ⟨_, rfl, by rw [hanswers, List.range_eq_range']; rfl, hwritten.content, ?_⟩
  intro n hn cut hcut
  have hread : read cut (file root name) name = Log.rows name ((Log.fileOf rows).take n) := by
    unfold read
    rw [hcut]
    rfl
  refine ⟨?_, ?_, fun hsome hinside => ?_⟩
  · rintro rfl
    rw [hread, List.take_zero]
    exact Log.Accepted.empty.rows_eq name
  · rintro k - rfl
    rw [hread, Log.take_fileOf]
    exact (Log.accepted_fileOf fun row hrow => hfits row (List.mem_of_mem_take hrow)).rows_eq name
  · obtain ⟨c, hrejected⟩ := Log.exists_rejected_take name hfits hn hsome hinside
    exact ⟨c, hread.trans hrejected.rows_eq⟩

/-- Two rows are written, and the file is cut inside the second one. -/
theorem read_cut_inside :
    ∃ (t : FileTable) (cut : Disk), (openAt {} "data" "spaces").table = .ok t ∧
      (EntryTable.createEach [.unbound "ram", .unbound "io"]
        (⟨(openAt {} "data" "spaces").disk, t⟩ : FileOnDisk)).2.disk.update
        (file "data" "spaces") (·.take 120) = .ok cut ∧
      ∃ c, read cut (file "data" "spaces") "spaces" = .error (.corrupt c) := by
  have hnew : New {} "data" "spaces" := ⟨_, _, rfl, rfl, rfl⟩
  have hfits : ∀ row ∈ Row.numbered [.unbound "ram", .unbound "io"], Log.Fits row := by
    intro row hrow
    simp only [Row.numbered, List.mapIdx_cons, List.mapIdx_nil, List.mem_cons, List.not_mem_nil,
      or_false] at hrow
    rcases hrow with rfl | rfl <;> exact ⟨by decide, by decide⟩
  obtain ⟨t, hopen, -, hcontent, hcut⟩ := read_cut hnew hfits
  obtain ⟨place, hlocate, hfile⟩ := Disk.read_eq_ok.mp hcontent
  obtain ⟨cut, hupdate⟩ := Disk.exists_update hlocate (by simp [hfile]) (·.take 120)
  refine ⟨t, cut, hopen, hupdate, ?_⟩
  obtain ⟨-, old, hread, hold | ⟨hfresh, -⟩⟩ := Disk.update_eq_ok hupdate
  · obtain rfl := Except.ok.inj (hold.symm.trans hcontent)
    exact (hcut 120 (by decide +kernel) cut hread).2.2 (by decide) (by decide +kernel)
  · have hempty := Except.ok.inj ((Disk.isFresh_of_read hcontent).symm.trans hfresh)
    exact absurd (List.isEmpty_iff.mp hempty) (Log.fileOf_ne_nil _)

end FileTable
end TraceAtlas
