import TraceAtlas.Proofs.FileHandles

/-!
# Table files grow at the end only

Calls are made on any number of handles of one table file, on a disk with any contents. `Effect`
says what one call may do: a call that is refused leaves all files and handles alone, an opening
adds the header to a file that is not there or empty and nothing to any other, and a creation adds
one frame, whose key is above all keys that the file held. A call is only refused for a reason
(`Refusal`): the disk does not do what is asked of it, the file holds no table, or the row is too
big. `after_effect` is that along every run, and says with it that no file ever loses or changes a
byte.

A row that was created is read behind all others (`readsBack`), also when the file was changed since
the handle was opened, unless the file was emptied: a creation does not begin a file with a header.
-/

namespace TraceAtlas

/-! ## Files of a disk -/

namespace Disk

variable {d e f : Disk} {path : String} {place : Place} {old bytes : List UInt8}

/-- What the file at a place holds, if a file stands there. -/
def content? (d : Disk) (place : Place) : Option (List UInt8) :=
  match d.node? place with
  | some (.file content) => some content
  | _ => none

/-- The files are the same; directories need not be. -/
def SameFiles (d e : Disk) : Prop := ∀ place, e.content? place = d.content? place

/-- A file that held `old`, or was not there if `old` is empty, has got `bytes` behind it. The path
leads to this file, and no other file has changed. -/
def Appends (d e : Disk) (path : String) (old bytes : List UInt8) : Prop :=
  ∃ place, e.locate path = .ok place ∧ (d.content? place).getD [] = old ∧
    ∀ p, e.content? p = if p = place then some (old ++ bytes) else d.content? p

/-- Every file is still there, and what it held is a prefix of what it holds now. -/
def Extends (d e : Disk) : Prop :=
  ∀ place old, d.content? place = some old → ∃ new, e.content? place = some new ∧ old <+: new

theorem SameFiles.refl (d : Disk) : SameFiles d d := fun _ => rfl

theorem SameFiles.trans (h : SameFiles d e) (h' : SameFiles e f) : SameFiles d f :=
  fun place => (h' place).trans (h place)

theorem SameFiles.appends (h : SameFiles d e) (h' : e.Appends f path old bytes) :
    d.Appends f path old bytes := by
  obtain ⟨place, hlocate, hold, hfiles⟩ := h'
  rw [h place] at hold
  exact ⟨place, hlocate, hold, fun p => (hfiles p).trans (by rw [h p])⟩

theorem Extends.refl (d : Disk) : Extends d d :=
  fun _ old hold => ⟨old, hold, List.prefix_refl old⟩

theorem Extends.trans (h : Extends d e) (h' : Extends e f) : Extends d f := by
  intro place old hold
  obtain ⟨mid, hmid, hprefix⟩ := h place old hold
  obtain ⟨new, hnew, hprefix'⟩ := h' place mid hmid
  exact ⟨new, hnew, hprefix.trans hprefix'⟩

theorem SameFiles.extends (h : SameFiles d e) : Extends d e :=
  fun place old hold => ⟨old, (h place).trans hold, List.prefix_refl old⟩

theorem Appends.extends (h : d.Appends e path old bytes) : Extends d e := by
  obtain ⟨place, -, hold, hfiles⟩ := h
  intro p content hcontent
  by_cases hp : p = place
  · subst hp
    rw [hcontent] at hold
    subst hold
    exact ⟨content ++ bytes, by rw [hfiles, if_pos rfl]; rfl, List.prefix_append ..⟩
  · exact ⟨content, by rw [hfiles, if_neg hp, hcontent], List.prefix_refl content⟩

theorem content?_eq_some {content : List UInt8} :
    d.content? place = some content ↔ d.node? place = some (.file content) := by
  unfold content?
  cases d.node? place with
  | none => simp
  | some node => cases node <;> simp

theorem content?_insert (hplace : place ≠ []) (content : List UInt8) (p : Place) :
    content? ⟨d.nodes.insert place (.file content)⟩ p =
      if p = place then some content else d.content? p := by
  unfold content?
  rw [node?_insert d hplace]
  by_cases hp : p = place
  · rw [if_pos hp, if_pos hp]
  · rw [if_neg hp, if_neg hp]

/-- A directory that is made takes the place of no file. -/
theorem sameFiles_insert_directory (hplace : place ≠ []) (hnone : d.node? place = none) :
    SameFiles d ⟨d.nodes.insert place .directory⟩ := by
  intro p
  unfold content?
  rw [node?_insert d hplace]
  by_cases hp : p = place
  · rw [if_pos hp, hp, hnone]
  · rw [if_neg hp]

theorem makeFrom_sameFiles (segments : List String) (d : Disk) (place : Place) :
    SameFiles d (d.makeFrom place segments).2 := by
  induction segments generalizing d place with
  | nil => exact .refl d
  | cons segment rest ih =>
      unfold makeFrom
      split
      · exact ih d place
      · split
        · exact ih d place.dropLast
        · split
          · exact .refl d
          · split
            · next hnone => exact (sameFiles_insert_directory (by simp) hnone).trans (ih _ _)
            · exact ih d _
            · exact .refl d

theorem makeDirectories_sameFiles (d : Disk) (path : String) :
    SameFiles d (d.makeDirectories path).2 := by
  unfold makeDirectories
  split
  · exact .refl d
  · exact makeFrom_sameFiles _ d []

/-- Adding at the end of a file puts a file with the old bytes and the new ones where the path
leads. -/
theorem append_eq_ok (h : d.append path bytes = .ok e) : ∃ place, d.locate path = .ok place ∧
    d.node? place ≠ some .directory ∧
      e = ⟨d.nodes.insert place (.file ((d.content? place).getD [] ++ bytes))⟩ := by
  unfold append update at h
  obtain ⟨place, hlocate, h⟩ := bind_eq_ok.mp h
  refine ⟨place, hlocate, ?_⟩
  unfold content?
  split at h
  · next hnone =>
      cases h
      simp [hnone]
  · cases h
  · next content hfile =>
      cases h
      simp [hfile]

theorem append_appends (h : d.append path bytes = .ok e) :
    ∃ old, d.Appends e path old bytes ∧
      (d.isFresh path = .ok true → old = []) ∧ ∀ content, d.read path = .ok content → content = old
    := by
  obtain ⟨place, hlocate, hnode, rfl⟩ := append_eq_ok h
  have hfile := content?_insert (d := d) (ne_nil_of_node? hnode)
    ((d.content? place).getD [] ++ bytes)
  refine ⟨_, ⟨place, (Grows.of_insert hnode _).locate hlocate, rfl, hfile⟩, ?_, ?_⟩
  · intro hfresh
    simp only [isFresh, hlocate] at hfresh
    unfold content?
    split
    · next content hcontent => simpa [hcontent] using hfresh
    · rfl
  · intro content hread
    obtain ⟨place', hlocate', hcontent⟩ := read_eq_ok.mp hread
    obtain rfl := Except.ok.inj (hlocate.symm.trans hlocate')
    rw [content?_eq_some.mpr hcontent, Option.getD_some]

/-- A file that was begun holds what was added, and nothing else. -/
theorem Appends.read (h : d.Appends e path old bytes) : e.read path = .ok (old ++ bytes) := by
  obtain ⟨place, hlocate, -, hfiles⟩ := h
  have hcontent := hfiles place
  rw [if_pos rfl] at hcontent
  exact read_eq_ok.mpr ⟨place, hlocate, content?_eq_some.mp hcontent⟩

end Disk

/-! ## Single operations -/

namespace FileTable

variable {d e : Disk} {root name : String} {t : FileTable} {entry : Entry} {key : RowKey}

/-- Why a handle cannot be opened, with the error and the disk that it leaves. -/
inductive Unopened (d : Disk) (root name : String) : TableError → Disk → Prop
  | noDirectory {fault : IoFault} {made : Disk}
      (failed : d.makeDirectories (directory root) = (.error fault, made)) :
      Unopened d root name (.io (directory root) fault) made
  | unseen {fault : IoFault} {made : Disk}
      (directories : d.makeDirectories (directory root) = (.ok (), made))
      (failed : made.isFresh (file root name) = .error fault) :
      Unopened d root name (.io (file root name) fault) made
  /-- The disk does not take the header of a file that is not there or empty. -/
  | unbegun {fault : IoFault} {made : Disk} {header : List UInt8}
      (directories : d.makeDirectories (directory root) = (.ok (), made))
      (fresh : made.isFresh (file root name) = .ok true)
      (frame : Log.frameOf (.header schemaVersion) = .ok header)
      (failed : made.append (file root name) header = .error fault) :
      Unopened d root name (.io (file root name) fault) made
  /-- The file is there and not empty, but cannot be read as a table. -/
  | noTable {err : TableError} {made : Disk}
      (directories : d.makeDirectories (directory root) = (.ok (), made))
      (begun : made.isFresh (file root name) = .ok false)
      (unread : read made (file root name) name = .error err) : Unopened d root name err made

/-- A file that can be read and is not fresh is not empty. -/
theorem exists_of_begun {path : String} {rows : List Row} (begun : d.isFresh path = .ok false)
    (hread : read d path name = .ok rows) :
    ∃ old, d.read path = .ok old ∧ old ≠ [] ∧ Log.rows name old = .ok rows := by
  obtain ⟨old, hold, hrows⟩ := read_eq_ok.mp hread
  refine ⟨old, hold, ?_, hrows⟩
  rintro rfl
  cases begun.symm.trans (Disk.isFresh_of_read hold)

/-- **Opening a handle** fails for a reason and without touching a file, or keeps what an old file
holds, or begins the file with a header and then has no rows. -/
theorem openAt_cases (d : Disk) (root name : String) :
    (∃ err, (openAt d root name).table = .error err ∧
      Unopened d root name err (openAt d root name).disk ∧
      d.SameFiles (openAt d root name).disk) ∨
    (∃ old rows, (openAt d root name).table = .ok ⟨name, file root name, some rows⟩ ∧
      (openAt d root name).disk.read (file root name) = .ok old ∧ old ≠ [] ∧
      Log.rows name old = .ok rows ∧ d.SameFiles (openAt d root name).disk) ∨
    ∃ header, (openAt d root name).table = .ok ⟨name, file root name, some []⟩ ∧
      Log.frameOf (.header schemaVersion) = .ok header ∧
      d.Appends (openAt d root name).disk (file root name) [] header := by
  have hsame := Disk.makeDirectories_sameFiles d (directory root)
  unfold openAt
  rcases hmade : d.makeDirectories (directory root) with ⟨fault | done, made⟩
  · rw [hmade] at hsame
    exact .inl ⟨_, rfl, .noDirectory hmade, hsame⟩
  · rw [hmade] at hsame
    dsimp only
    rcases hfresh : made.isFresh (file root name) with fault | fresh
    · exact .inl ⟨_, rfl, .unseen hmade hfresh, hsame⟩
    · cases fresh with
      | false =>
          dsimp only [onDisk, Except.mapError, firstRead]
          rcases hread : read made (file root name) name with err | rows
          · exact .inl ⟨err, rfl, .noTable hmade hfresh hread, hsame⟩
          · obtain ⟨old, hold, hsome, hrows⟩ := exists_of_begun hfresh hread
            exact .inr (.inl ⟨old, rows, rfl, hold, hsome, hrows, hsame⟩)
      | true =>
          -- the header can be framed, and a file that is nothing but a header has no rows
          obtain ⟨header, hframe, hrows⟩ := Log.frameOf_header
          have happend : append made (file root name) (.header schemaVersion) =
              onDisk (file root name) (made.append (file root name) header) := by
            unfold append
            rw [hframe]
            rfl
          dsimp only [onDisk, Except.mapError]
          rw [happend]
          rcases hdisk : made.append (file root name) header with fault | begun
          · exact .inl ⟨_, rfl, .unbegun hmade hfresh hframe hdisk, hsame⟩
          · obtain ⟨old, happends, hempty, -⟩ := Disk.append_appends hdisk
            obtain rfl := hempty hfresh
            have hread : read begun (file root name) name = .ok [] :=
              read_eq_ok.mpr ⟨header, happends.read, hrows name⟩
            dsimp only [onDisk, Except.mapError, firstRead]
            rw [hread]
            exact .inr (.inr ⟨header, rfl, hframe, hsame.appends happends⟩)

/-- **A row that is created** is one frame at the end of the file, and its key is above all keys of
the file, in whatever order they stand there. -/
theorem createRow_appends (h : t.createRow d entry = .ok (key, e)) :
    ∃ old rows bytes, d.read t.path = .ok old ∧ Log.rows t.name old = .ok rows ∧
      (∀ row ∈ rows, row.1 < key) ∧ Log.frameOf (.row key entry) = .ok bytes ∧
      d.Appends e t.path old bytes := by
  obtain ⟨rows, hread, rfl, happend⟩ := createRow_eq_ok.mp h
  obtain ⟨old, hold, hrows⟩ := read_eq_ok.mp hread
  obtain ⟨bytes, hframe, hdisk⟩ := append_eq_ok.mp happend
  obtain ⟨old', happends, -, hsame⟩ := Disk.append_appends hdisk
  obtain rfl := hsame old hold
  exact ⟨old, rows, bytes, hold, hrows, (Log.lt_foldl_max 0 rows).2, hframe, happends⟩

/-- A row is refused because the file cannot be read as a table, the row cannot be framed, or the
disk does not take the frame. -/
theorem createRow_eq_error {err : TableError} : t.createRow d entry = .error err ↔
    read d t.path t.name = .error err ∨ ∃ rows, read d t.path t.name = .ok rows ∧
      (Log.frameOf (.row (Log.nextKey rows) entry) = .error err ∨ ∃ bytes,
        Log.frameOf (.row (Log.nextKey rows) entry) = .ok bytes ∧
          ∃ fault, d.append t.path bytes = .error fault ∧ err = .io t.path fault) := by
  unfold createRow append
  simp only [bind_eq_error, onDisk_eq_error, reduceCtorEq, and_false, exists_false, or_false]

end FileTable

/-! ## Calls on many handles -/

namespace FileHandles

open TableClones FileTable

variable {s s' : FileHandles} {c : TableCall} {a : TableAnswer} {d : Disk} {root name : String}

/-- The file that the handles are on. -/
def path (s : FileHandles) : String := file s.root s.name

/-- Why a call is refused, with the error and the disk that it leaves. -/
inductive Refusal (s : FileHandles) : TableCall → TableError → Disk → Prop
  | unopened {err : TableError} {disk : Disk} (unopened : Unopened s.disk s.root s.name err disk) :
      Refusal s .openNew err disk
  | unread {h : Nat} {t : FileTable} {entry : Entry} {err : TableError}
      (handle : s.handles[h]? = some t) (failed : FileTable.read s.disk s.path s.name = .error err) :
      Refusal s (.create h entry) err s.disk
  /-- The row is too big for a frame, or all keys are used up. -/
  | unframed {h : Nat} {t : FileTable} {entry : Entry} {rows : List Row} {err : TableError}
      (handle : s.handles[h]? = some t) (read : FileTable.read s.disk s.path s.name = .ok rows)
      (failed : Log.frameOf (.row (Log.nextKey rows) entry) = .error err) :
      Refusal s (.create h entry) err s.disk
  | unwritten {h : Nat} {t : FileTable} {entry : Entry} {rows : List Row} {bytes : List UInt8}
      {fault : IoFault} (handle : s.handles[h]? = some t)
      (read : FileTable.read s.disk s.path s.name = .ok rows)
      (frame : Log.frameOf (.row (Log.nextKey rows) entry) = .ok bytes)
      (failed : s.disk.append s.path bytes = .error fault) :
      Refusal s (.create h entry) (.io s.path fault) s.disk
  /-- The handle keeps nothing, and the file cannot be read as a table. -/
  | unlisted {h : Nat} {t : FileTable} {err : TableError} (handle : s.handles[h]? = some t)
      (nothing : t.kept = none) (failed : FileTable.read s.disk s.path s.name = .error err) :
      Refusal s (.rows h) err s.disk

/-- What a call does to the disk and to the handles, with the answer that it gives. -/
inductive Effect (s : FileHandles) : TableCall → TableAnswer → FileHandles → Prop
  | noHandle {c : TableCall} {h : Nat} (hcall : c.handle? = some h)
      (hnone : s.handles[h]? = none) : Effect s c .noHandle s
  /-- Directories that were made on the way may stay. -/
  | refused {c : TableCall} {err : TableError} {disk : Disk} (reason : Refusal s c err disk)
      (same : s.disk.SameFiles disk) : Effect s c (.refused err) { s with disk }
  /-- The file was not there or empty. -/
  | began {disk : Disk} {header : List UInt8}
      (frame : Log.frameOf (.header schemaVersion) = .ok header)
      (appends : s.disk.Appends disk s.path [] header) :
      Effect s .openNew .done
        { s with disk, handles := s.handles ++ [⟨s.name, s.path, some []⟩] }
  /-- The file was there and not empty. -/
  | opened {disk : Disk} {old : List UInt8} {rows : List Row} (held : disk.read s.path = .ok old)
      (begun : old ≠ []) (parsed : Log.rows s.name old = .ok rows) (same : s.disk.SameFiles disk) :
      Effect s .openNew .done
        { s with disk, handles := s.handles ++ [⟨s.name, s.path, some rows⟩] }
  | created {h : Nat} {t : FileTable} {entry : Entry} {key : RowKey} {disk : Disk}
      {old bytes : List UInt8} {rows : List Row} (handle : s.handles[h]? = some t)
      (held : s.disk.read s.path = .ok old) (parsed : Log.rows s.name old = .ok rows)
      (above : ∀ row ∈ rows, row.1 < key) (frame : Log.frameOf (.row key entry) = .ok bytes)
      (appends : s.disk.Appends disk s.path old bytes) :
      Effect s (.create h entry) (.key key)
        { s with
          disk
          handles := s.handles.set h { t with kept := t.kept.map (· ++ [(key, entry)]) } }
  | listed {h : Nat} {t : FileTable} {rows : List Row} (handle : s.handles[h]? = some t)
      (answers : t.rows s.disk = .ok rows) :
      Effect s (.rows h) (.rows rows)
        { s with handles := s.handles.set h { t with kept := some rows } }
  | invalidated {h : Nat} {t : FileTable} (handle : s.handles[h]? = some t) :
      Effect s (.invalidate h) .done { s with handles := s.handles.set h t.invalidate }

theorem Effect.extends (h : Effect s c a s') : s.disk.Extends s'.disk := by
  cases h with
  | noHandle => exact .refl _
  | refused reason same => exact same.extends
  | began frame appends => exact appends.extends
  | opened held begun parsed same => exact same.extends
  | created _ _ _ _ _ appends => exact appends.extends
  | listed => exact .refl _
  | invalidated => exact .refl _

/-- All handles are on the file of the table. -/
structure OnTable (root name : String) (s : FileHandles) : Prop where
  root_eq : s.root = root
  name_eq : s.name = name
  handles : ∀ t ∈ s.handles, t.name = s.name ∧ t.path = s.path

theorem Effect.onTable (h : Effect s c a s') (ht : OnTable root name s) : OnTable root name s' := by
  have hset : ∀ (h : Nat) (t u : FileTable), s.handles[h]? = some t → u.name = t.name →
      u.path = t.path → ∀ v ∈ s.handles.set h u, v.name = s.name ∧ v.path = s.path := by
    intro h t u hmem hname hpath v hv
    rcases List.mem_or_eq_of_mem_set hv with hv | rfl
    · exact ht.handles v hv
    · rw [hname, hpath]
      exact ht.handles t (List.mem_of_getElem? hmem)
  have hadd : ∀ rows, ∀ v ∈ s.handles ++ [⟨s.name, s.path, some rows⟩],
      v.name = s.name ∧ v.path = s.path := by
    intro rows v hv
    rcases List.mem_append.mp hv with hv | hv
    · exact ht.handles v hv
    · rw [List.mem_singleton.mp hv]
      exact ⟨rfl, rfl⟩
  cases h with
  | noHandle => exact ht
  | refused => exact ⟨ht.root_eq, ht.name_eq, ht.handles⟩
  | began => exact ⟨ht.root_eq, ht.name_eq, hadd []⟩
  | @opened _ _ rows => exact ⟨ht.root_eq, ht.name_eq, hadd rows⟩
  | created handle => exact ⟨ht.root_eq, ht.name_eq, hset _ _ _ handle rfl rfl⟩
  | listed handle => exact ⟨ht.root_eq, ht.name_eq, hset _ _ _ handle rfl rfl⟩
  | invalidated handle => exact ⟨ht.root_eq, ht.name_eq, hset _ _ _ handle rfl rfl⟩

theorem openNew_effect (s : FileHandles) :
    Effect s .openNew (step s .openNew).1 (step s .openNew).2 := by
  rcases openAt_cases s.disk s.root s.name with
    ⟨err, htable, hreason, hsame⟩ | ⟨old, rows, htable, hold, hbegun, hrows, hsame⟩ |
      ⟨header, htable, hframe, happends⟩
  · have hstep : step s .openNew =
        (.refused err, { s with disk := (openAt s.disk s.root s.name).disk }) := by
      simp only [step, openNew, htable, TableAnswer.ofOpening]
    rw [hstep]
    exact .refused (.unopened hreason) hsame
  · have hstep : step s .openNew = (.done,
        { s with
          disk := (openAt s.disk s.root s.name).disk
          handles := s.handles ++ [⟨s.name, file s.root s.name, some rows⟩] }) := by
      simp only [step, openNew, htable, TableAnswer.ofOpening]
    rw [hstep]
    exact .opened hold hbegun hrows hsame
  · have hstep : step s .openNew = (.done,
        { s with
          disk := (openAt s.disk s.root s.name).disk
          handles := s.handles ++ [⟨s.name, file s.root s.name, some []⟩] }) := by
      simp only [step, openNew, htable, TableAnswer.ofOpening]
    rw [hstep]
    exact .began hframe happends

theorem use_of_handle {h : Nat} {t : FileTable} (handle : s.handles[h]? = some t)
    (act : FileOnDisk → TableAnswer × FileOnDisk) :
    use s h act = ((act ⟨s.disk, t⟩).1, put s h (act ⟨s.disk, t⟩).2) := by
  simp [use, handle?, handle]

/-- Putting a handle back as it was changes nothing. -/
theorem put_back {h : Nat} {t : FileTable} (handle : s.handles[h]? = some t) :
    put s h ⟨s.disk, t⟩ = { s with disk := s.disk } := by
  obtain ⟨hlt, rfl⟩ := List.getElem?_eq_some_iff.mp handle
  simp [put, List.set_getElem_self]

theorem refusal_create {h : Nat} {t : FileTable} {entry : Entry} {err : TableError}
    (handle : s.handles[h]? = some t) (name_eq : t.name = s.name) (path_eq : t.path = s.path)
    (refused : t.createRow s.disk entry = .error err) :
    Refusal s (.create h entry) err s.disk := by
  have hcases := createRow_eq_error.mp refused
  rw [name_eq, path_eq] at hcases
  rcases hcases with hread | ⟨rows, hread, hframe | ⟨bytes, hframe, fault, hdisk, rfl⟩⟩
  · exact .unread handle hread
  · exact .unframed handle hread hframe
  · exact .unwritten handle hread hframe hdisk

theorem refusal_rows {h : Nat} {t : FileTable} {err : TableError}
    (handle : s.handles[h]? = some t) (name_eq : t.name = s.name) (path_eq : t.path = s.path)
    (refused : t.rows s.disk = .error err) : Refusal s (.rows h) err s.disk := by
  unfold FileTable.rows at refused
  split at refused
  · cases refused
  · next nothing =>
      rw [name_eq, path_eq] at refused
      exact .unlisted handle nothing refused

theorem create_effect {h : Nat} {t : FileTable} (handle : s.handles[h]? = some t)
    (name_eq : t.name = s.name) (path_eq : t.path = s.path) (entry : Entry) :
    Effect s (.create h entry) (step s (.create h entry)).1 (step s (.create h entry)).2 := by
  rcases hrow : t.createRow s.disk entry with err | ⟨key, disk⟩
  · have hstep : step s (.create h entry) = (.refused err, { s with disk := s.disk }) := by
      simp only [step, use_of_handle handle, EntryTable.create, FileOnDisk.create, hrow,
        put_back handle]
      rfl
    rw [hstep]
    exact .refused (refusal_create handle name_eq path_eq hrow) (.refl _)
  · have hstep : step s (.create h entry) = (.key key,
        { s with
          disk
          handles := s.handles.set h { t with kept := t.kept.map (· ++ [(key, entry)]) } }) := by
      simp only [step, use_of_handle handle, EntryTable.create, FileOnDisk.create, hrow]
      rfl
    obtain ⟨old, rows, bytes, hold, hrows, habove, hframe, happends⟩ := createRow_appends hrow
    rw [name_eq] at hrows
    rw [path_eq] at hold happends
    rw [hstep]
    exact .created handle hold hrows habove hframe happends

theorem rows_effect {h : Nat} {t : FileTable} (handle : s.handles[h]? = some t)
    (name_eq : t.name = s.name) (path_eq : t.path = s.path) :
    Effect s (.rows h) (step s (.rows h)).1 (step s (.rows h)).2 := by
  rcases hrows : t.rows s.disk with err | rows
  · have hstep : step s (.rows h) = (.refused err, { s with disk := s.disk }) := by
      simp only [step, use_of_handle handle, EntryTable.rows, FileOnDisk.rows, hrows,
        put_back handle]
      rfl
    rw [hstep]
    exact .refused (refusal_rows handle name_eq path_eq hrows) (.refl _)
  · have hstep : step s (.rows h) = (.rows rows,
        { s with handles := s.handles.set h { t with kept := some rows } }) := by
      simp only [step, use_of_handle handle, EntryTable.rows, FileOnDisk.rows, hrows]
      rfl
    rw [hstep]
    exact .listed handle hrows

/-- **One call** has one of the effects. -/
theorem step_effect (ht : OnTable root name s) (c : TableCall) :
    Effect s c (step s c).1 (step s c).2 := by
  cases hcall : c.handle? with
  | none =>
      obtain rfl : c = .openNew := by cases c <;> first | rfl | cases hcall
      exact openNew_effect s
  | some h =>
      cases handle : s.handles[h]? with
      | none =>
          rw [use_noHandle hcall (by simp [handle?, handle])]
          exact .noHandle hcall handle
      | some t =>
          obtain ⟨name_eq, path_eq⟩ := ht.handles t (List.mem_of_getElem? handle)
          cases c with
          | openNew => cases hcall
          | create h' entry =>
              cases hcall
              exact create_effect handle name_eq path_eq entry
          | rows h' =>
              cases hcall
              exact rows_effect handle name_eq path_eq
          | invalidate h' =>
              cases hcall
              have hstep : step s (.invalidate h) = (.done,
                  { s with handles := s.handles.set h t.invalidate }) := by
                simp only [step, use_of_handle handle]
                rfl
              rw [hstep]
              exact .invalidated handle

/-! ## Whole runs -/

theorem onTable_after (ht : OnTable root name s) (calls : List TableCall) :
    OnTable root name (after s calls) := by
  induction calls using List.reverseRecOn with
  | nil => exact ht
  | append_singleton calls c ih =>
      rw [after_concat]
      exact (step_effect ih c).onTable ih

theorem extends_after (ht : OnTable root name s) (calls : List TableCall) :
    s.disk.Extends (after s calls).disk := by
  induction calls using List.reverseRecOn with
  | nil => exact .refl _
  | append_singleton calls c ih =>
      rw [after_concat]
      exact ih.trans (step_effect (onTable_after ht calls) c).extends

/-- **Table files grow at the end only.** From a disk with any contents, after any calls on any
number of handles of a table, each next call has one of the effects, and whatever calls follow, all
bytes that are on the disk stay where they are. -/
theorem after_effect (d : Disk) (root name : String) (calls : List TableCall) :
    let s := after (⟨root, name, d, []⟩ : FileHandles) calls
    OnTable root name s ∧ (∀ c, Effect s c (step s c).1 (step s c).2) ∧
      d.Extends s.disk ∧ ∀ more, s.disk.Extends (after s more).disk := by
  intro s
  have hstart : OnTable root name ⟨root, name, d, []⟩ := ⟨rfl, rfl, by simp⟩
  have ht : OnTable root name s := onTable_after hstart calls
  exact ⟨ht, step_effect ht, extends_after hstart calls, extends_after ht⟩

end FileHandles

/-! ## Reading back -/

namespace FileTable

open Disk

variable {d d₀ : Disk} {root name : String} {t : FileTable} {rows : List Row}

/-- A row that the handle creates for the entry is read behind the rows that could be read before,
by the handle itself when it has dropped what it keeps, and by a new handle. -/
def ReadsBack (d : Disk) (root : String) (t : FileTable) (entry : Entry) : Prop :=
  ∀ key u, FileOnDisk.create entry ⟨d, t⟩ = (.ok key, u) →
    ∃ rows, read d t.path t.name = .ok rows ∧
      (EntryTable.rows (EntryTable.invalidate u)).1 = .ok (rows ++ [(key, entry)]) ∧
      (openAt u.disk root t.name).table = .ok ⟨t.name, t.path, some (rows ++ [(key, entry)])⟩

/-- A table whose directories are still there is laid out by any file of it that can be read and is
not empty. -/
theorem laid_of_read (hopen : (openAt d₀ root name).table = .ok t)
    (hdirs : (openAt d₀ root name).disk.Grows d) (hread : read d (file root name) name = .ok rows)
    (hsome : d.read (file root name) ≠ .ok []) : Laid d root name rows := by
  obtain ⟨_, -, hlaid⟩ := openAt_laid hopen
  obtain ⟨content, hcontent, hrows⟩ := read_eq_ok.mp hread
  refine ⟨makeDirectories_of_grows hlaid.made hdirs, content, hcontent, ?_, hrows⟩
  rintro rfl
  exact hsome hcontent

/-- **What was created can be read back.** The handle may have been opened at any time before and
keep any rows, and the files of the disk may have been changed in any way since then, as long as the
file of the table is not empty. -/
theorem readsBack (hopen : (openAt d₀ root name).table = .ok t)
    (hdirs : (openAt d₀ root name).disk.Grows d) (kept : Option (List Row))
    (hsome : d.read t.path ≠ .ok []) (entry : Entry) :
    ReadsBack d root { t with kept } entry := by
  obtain ⟨opened, rfl, -⟩ := openAt_laid hopen
  intro key u hcreate
  unfold FileOnDisk.create at hcreate
  split at hcreate
  · cases hcreate
  · next k disk hrow =>
      cases hcreate
      obtain ⟨rows, hread, hkey, happend⟩ := createRow_eq_ok.mp hrow
      have hlaid := (laid_of_read hopen hdirs hread hsome).append happend
      refine ⟨rows, hread, ?_, by rw [hlaid.openAt]⟩
      show (FileOnDisk.rows _).1 = _
      have hrows : FileTable.rows disk ⟨name, file root name, none⟩ =
          .ok (rows ++ [(key, entry)]) := hlaid.read
      simp only [FileOnDisk.rows, EntryTable.invalidate, FileTable.invalidate, hrows]

/-- A handle that still keeps the rows of its opening, after another one has written the row of
`ram`. -/
def stale : FileOnDisk where
  disk := (FileOnDisk.create (.unbound "ram")
    ⟨(openAt {} "data" "spaces").disk, ⟨"spaces", file "data" "spaces", none⟩⟩).2.disk
  table := ⟨"spaces", file "data" "spaces", some []⟩

/-- The row that the stale handle creates is read behind that of the other. -/
theorem readsBack_stale : (FileOnDisk.create (.unbound "io") stale).1 = .ok 1 ∧
    (openAt (FileOnDisk.create (.unbound "io") stale).2.disk "data" "spaces").table =
      .ok ⟨"spaces", file "data" "spaces", some [(0, .unbound "ram"), (1, .unbound "io")]⟩ := by
  have hother : createRow (openAt {} "data" "spaces").disk
      ⟨"spaces", file "data" "spaces", none⟩ (.unbound "ram") = .ok (0, stale.disk) := by
    decide +kernel
  have hopened : (openAt {} "data" "spaces").table =
      .ok ⟨"spaces", file "data" "spaces", some []⟩ := by decide +kernel
  have hcreate : (FileOnDisk.create (.unbound "io") stale).1 = .ok 1 := by decide +kernel
  have hread : read stale.disk (file "data" "spaces") "spaces" = .ok [(0, .unbound "ram")] := by
    decide +kernel
  have hsome : stale.disk.read (file "data" "spaces") ≠ .ok [] := by decide +kernel
  obtain ⟨-, -, -, happend⟩ := createRow_eq_ok.mp hother
  obtain ⟨bytes, -, hdisk⟩ := append_eq_ok.mp happend
  obtain ⟨rows, hrows, -, hopen⟩ :=
    readsBack hopened (update_eq_ok hdisk).1 (some []) hsome (.unbound "io") 1 _
      (Prod.ext hcreate rfl)
  rw [hread] at hrows
  cases hrows
  exact ⟨hcreate, hopen⟩

/-- A table whose file was emptied after its handles were opened. -/
def emptied : Disk :=
  ⟨⟨[(["data"], .directory), (["data", "spaces"], .directory),
    (["data", "spaces", "spaces.log"], .file [])]⟩⟩

/-- A row that is created in a file that was emptied has no header in front of it: the creation
answers a key, and the table cannot be read any more. -/
theorem not_readsBack_emptied :
    (openAt {} "data" "spaces").table = .ok ⟨"spaces", file "data" "spaces", some []⟩ ∧
      (openAt {} "data" "spaces").disk.update (file "data" "spaces") (fun _ => []) = .ok emptied ∧
      ¬ReadsBack emptied "data" ⟨"spaces", file "data" "spaces", some []⟩ (.unbound "ram") := by
  refine ⟨by decide +kernel, by decide +kernel, ?_⟩
  intro hreads
  obtain ⟨rows, -, -, hopen⟩ := hreads 0 _ (Prod.ext (by decide +kernel) rfl)
  have hmissing : (openAt (FileOnDisk.create (.unbound "ram")
      ⟨emptied, ⟨"spaces", file "data" "spaces", some []⟩⟩).2.disk "data" "spaces").table =
        .error (.corrupt (.missingHeader "spaces")) := by decide +kernel
  rw [hmissing] at hopen
  cases hopen

end FileTable

end TraceAtlas
