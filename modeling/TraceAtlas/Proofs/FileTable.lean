import TraceAtlas.Proofs.DiskGrowth
import TraceAtlas.Proofs.LawfulTable
import TraceAtlas.Proofs.LogGrowth
import TraceAtlas.Table.File

/-!
# Tables in files keep their rows

A handle that is the only one to write to its file answers what stands in the file, and a handle
that is opened later on the same file starts with exactly these rows. What is on the disk is said
by `Laid`, apart from the handle, because it is all that is left when the handle is gone.
-/

namespace TraceAtlas

/-! ## What is on the disk -/

namespace FileTable

variable {d e : Disk} {root name : String} {rows : List Row}

/-- The file of a table is there, begun with a header, and holds these rows. -/
structure Laid (d : Disk) (root name : String) (rows : List Row) : Prop where
  made : d.makeDirectories (directory root) = (.ok (), d)
  content : ∃ content, d.read (file root name) = .ok content ∧ content ≠ [] ∧
    Log.rows name content = .ok rows

theorem onDisk_eq_ok {α : Type} {path : String} {x : Except IoFault α} {a : α} :
    onDisk path x = .ok a ↔ x = .ok a := by
  cases x <;> simp [onDisk, Except.mapError]

theorem onDisk_eq_error {α : Type} {path : String} {x : Except IoFault α} {err : TableError} :
    onDisk path x = .error err ↔ ∃ fault, x = .error fault ∧ err = .io path fault := by
  cases x <;> simp [onDisk, Except.mapError, eq_comm]

theorem read_eq_ok {path : String} :
    read d path name = .ok rows ↔
      ∃ content, d.read path = .ok content ∧ Log.rows name content = .ok rows := by
  unfold read
  simp only [bind_eq_ok, onDisk_eq_ok]

theorem append_eq_ok {path : String} {r : Record} :
    append d path r = .ok e ↔ ∃ bytes, Log.frameOf r = .ok bytes ∧ d.append path bytes = .ok e := by
  unfold append
  simp only [bind_eq_ok, onDisk_eq_ok]

theorem createRow_eq_ok {t : FileTable} {entry : Entry} {key : RowKey} :
    t.createRow d entry = .ok (key, e) ↔ ∃ rows, read d t.path t.name = .ok rows ∧
      key = Log.nextKey rows ∧ append d t.path (.row key entry) = .ok e := by
  unfold createRow
  simp only [bind_eq_ok, Except.ok.injEq, Prod.mk.injEq]
  refine exists_congr fun rows => and_congr_right fun _ => ?_
  constructor
  · rintro ⟨disk, happend, rfl, rfl⟩
    exact ⟨rfl, happend⟩
  · rintro ⟨rfl, happend⟩
    exact ⟨e, happend, rfl, rfl⟩

theorem Laid.read (h : Laid d root name rows) : read d (file root name) name = .ok rows := by
  obtain ⟨content, hcontent, -, hrows⟩ := h.content
  exact read_eq_ok.mpr ⟨content, hcontent, hrows⟩

theorem Laid.append (h : Laid d root name rows) {key : RowKey} {entry : Entry}
    (happend : append d (file root name) (.row key entry) = .ok e) :
    Laid e root name (rows ++ [(key, entry)]) := by
  obtain ⟨content, hcontent, hsome, hrows⟩ := h.content
  obtain ⟨bytes, hframe, hdisk⟩ := append_eq_ok.mp happend
  obtain ⟨grows, old, hnew, hold | ⟨hfresh, -⟩⟩ := Disk.update_eq_ok hdisk
  · obtain rfl : content = old := Except.ok.inj (hcontent.symm.trans hold)
    refine ⟨Disk.makeDirectories_of_grows h.made grows, content ++ bytes, hnew, ?_, ?_⟩
    · simp [hsome]
    · exact Log.rows_append_row hsome hrows hframe
  · -- a file that has begun is not fresh
    have hempty := Except.ok.inj ((Disk.isFresh_of_read hcontent).symm.trans hfresh)
    exact absurd (List.isEmpty_iff.mp hempty) hsome

/-! ## Opening -/

theorem firstRead_eq_ok {path : String} {notices : List Notice} {t : FileTable}
    (h : (firstRead d name path notices).table = .ok t) :
    ∃ rows, t = ⟨name, path, some rows⟩ ∧ read d path name = .ok rows := by
  unfold firstRead at h
  cases hrows : read d path name with
  | error err =>
      rw [hrows] at h
      cases h
  | ok rows =>
      rw [hrows] at h
      cases h
      exact ⟨rows, rfl, rfl⟩

/-- A file that was not begun is begun with a header, and read at once. -/
theorem openAt_of_fresh {made : Disk}
    (hmade : d.makeDirectories (directory root) = (.ok (), made))
    (hfresh : made.isFresh (file root name) = .ok true)
    (happend : append made (file root name) (.header schemaVersion) = .ok e)
    (hread : FileTable.read e (file root name) name = .ok []) :
    openAt d root name =
      ⟨.ok ⟨name, file root name, some []⟩, e, [.tableCreated name (file root name)]⟩ := by
  unfold openAt
  rw [hmade]
  dsimp only
  rw [hfresh]
  dsimp only [onDisk, Except.mapError]
  rw [happend]
  dsimp only [firstRead]
  rw [hread]
  rfl

theorem ne_nil_of_append {path : String} {r : Record} {content : List UInt8}
    (h : append d path r = .ok e) (hread : e.read path = .ok content) : content ≠ [] := by
  obtain ⟨bytes, hframe, hdisk⟩ := append_eq_ok.mp h
  obtain ⟨payload, rfl, -, -⟩ := Log.frameOf_eq_ok hframe
  obtain ⟨-, old, hnew, -⟩ := Disk.update_eq_ok hdisk
  obtain rfl : old ++ Log.frame payload = content := Except.ok.inj (hnew.symm.trans hread)
  intro hnone
  have hlength := congrArg List.length hnone
  rw [List.length_append, Log.length_frame, List.length_nil] at hlength
  omega

theorem firstRead_laid {made : Disk} {notices : List Notice} {t : FileTable}
    (hmade : d.makeDirectories (directory root) = (.ok (), made)) (grows : made.Grows e)
    (hsome : ∀ content, e.read (file root name) = .ok content → content ≠ [])
    (h : (firstRead e name (file root name) notices).table = .ok t) :
    ∃ rows, t = ⟨name, file root name, some rows⟩ ∧ Laid e root name rows := by
  obtain ⟨rows, rfl, hread⟩ := firstRead_eq_ok h
  obtain ⟨content, hcontent, hrows⟩ := read_eq_ok.mp hread
  have hkept := Disk.makeDirectories_of_grows hmade grows
  exact ⟨rows, rfl, hkept, content, hcontent, hsome content hcontent, hrows⟩

/-- A handle that could be opened keeps the rows that are on the disk then. -/
theorem openAt_laid {t : FileTable} (h : (openAt d root name).table = .ok t) :
    ∃ rows, t = ⟨name, file root name, some rows⟩ ∧
      Laid (openAt d root name).disk root name rows := by
  unfold openAt at h ⊢
  rcases hmade : d.makeDirectories (directory root) with ⟨fault | done, made⟩
  · rw [hmade] at h
    cases h
  · rw [hmade] at h
    dsimp only at h ⊢
    rcases hfresh : made.isFresh (file root name) with fault | fresh
    · rw [hfresh] at h
      cases h
    · rw [hfresh] at h
      cases fresh with
      | false =>
          apply firstRead_laid hmade (.refl made) _ h
          rintro content hcontent rfl
          cases hfresh.symm.trans (Disk.isFresh_of_read hcontent)
      | true =>
          dsimp only [onDisk, Except.mapError] at h ⊢
          rcases happend : append made (file root name) (.header schemaVersion) with err | begun
          · rw [happend] at h
            cases h
          · rw [happend] at h
            obtain ⟨bytes, -, hdisk⟩ := append_eq_ok.mp happend
            have hgrows := (Disk.update_eq_ok hdisk).1
            exact firstRead_laid hmade hgrows (fun _ => ne_nil_of_append happend) h

/-- What is on the disk is what a new handle starts with, and opening it changes nothing. -/
theorem Laid.openAt (h : Laid d root name rows) :
    FileTable.openAt d root name = ⟨.ok ⟨name, file root name, some rows⟩, d, []⟩ := by
  obtain ⟨content, hcontent, hsome, -⟩ := h.content
  have hfresh : d.isFresh (file root name) = .ok false := by
    rw [Disk.isFresh_of_read hcontent, List.isEmpty_eq_false_iff.mpr hsome]
  unfold FileTable.openAt
  rw [h.made]
  dsimp only
  rw [hfresh]
  dsimp only [onDisk, Except.mapError, firstRead]
  rw [h.read]
  rfl

end FileTable

/-! ## Handles -/

namespace FileOnDisk

open FileTable

variable {root name : String} {t u : FileOnDisk} {rows : List Row}

/-- A handle on the file of a table keeps the rows that are on the disk, or none. -/
structure Holds (root name : String) (t : FileOnDisk) (rows : List Row) : Prop where
  name_eq : t.table.name = name
  path_eq : t.table.path = file root name
  laid : Laid t.disk root name rows
  kept : ∀ kept ∈ t.table.kept, kept = rows

theorem Holds.rows_eq (h : Holds root name t rows) : t.table.rows t.disk = .ok rows := by
  unfold FileTable.rows
  split
  · next kept hkept => rw [h.kept kept hkept]
  · rw [h.path_eq, h.name_eq, h.laid.read]

theorem Holds.create (h : Holds root name t rows) {entry : Entry} {key : RowKey}
    (hcreate : FileOnDisk.create entry t = (.ok key, u)) :
    key ∉ rows.map Prod.fst ∧ Holds root name u (rows ++ [(key, entry)]) := by
  unfold FileOnDisk.create at hcreate
  split at hcreate
  · cases hcreate
  · next k disk hrow =>
      cases hcreate
      obtain ⟨rows', hread, rfl, happend⟩ := createRow_eq_ok.mp hrow
      rw [h.path_eq, h.name_eq, h.laid.read] at hread
      cases hread
      rw [h.path_eq] at happend
      refine ⟨Log.nextKey_not_mem rows, h.name_eq, h.path_eq, h.laid.append happend, ?_⟩
      intro kept hkept
      obtain ⟨old, hold, rfl⟩ := Option.map_eq_some_iff.mp hkept
      rw [h.kept old hold]

/-- The table of a name below a root directory, as long as its handle is the only writer. -/
@[reducible] def lawful (root name : String) : LawfulTable FileOnDisk where
  Holds := Holds root name
  rows_eq {t rows} h := by
    show (FileOnDisk.rows t).1 = _
    unfold FileOnDisk.rows
    rw [h.rows_eq]
  rows_holds {t rows} h := by
    show Holds root name (FileOnDisk.rows t).2 rows
    unfold FileOnDisk.rows
    rw [h.rows_eq]
    exact ⟨h.name_eq, h.path_eq, h.laid, fun kept hkept => (Option.some.inj hkept).symm⟩
  invalidate_holds h := ⟨h.name_eq, h.path_eq, h.laid, fun kept hkept => by cases hkept⟩
  create_holds h hcreate := h.create hcreate
  refused_holds {t u rows entry e} h hcreate := by
    change FileOnDisk.create entry t = (.error e, u) at hcreate
    unfold FileOnDisk.create at hcreate
    split at hcreate
    · cases hcreate
      exact h
    · cases hcreate

theorem holds_of_openAt {d : Disk} {table : FileTable} (h : (openAt d root name).table = .ok table)
    (hkept : table.kept = some rows) : Holds root name ⟨(openAt d root name).disk, table⟩ rows := by
  obtain ⟨rows', rfl, hlaid⟩ := openAt_laid h
  obtain rfl : rows' = rows := Option.some.inj hkept
  exact ⟨rfl, rfl, hlaid, fun kept hkept => (Option.some.inj hkept).symm⟩

/-- When a handle is gone, a new one holds the same rows. -/
theorem Holds.openAt (h : Holds root name t rows) :
    ∃ table, (FileTable.openAt t.disk root name).table = .ok table ∧
      Holds root name ⟨(FileTable.openAt t.disk root name).disk, table⟩ rows := by
  rw [h.laid.openAt]
  exact ⟨_, rfl, rfl, rfl, h.laid, fun kept hkept => (Option.some.inj hkept).symm⟩

end FileOnDisk
end TraceAtlas
