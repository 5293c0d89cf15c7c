import TraceAtlas.Proofs.FileTable
import TraceAtlas.Proofs.LawfulTable

/-!
# Tables that others write to

When several registries write to one table, a registry is certain of less: there are rows that it
did not create, and a handle that keeps rows from an earlier reading need not see them. It still
sees every row that it saw before, and a new row never takes a key that is in use. `SharedTable` is
that much, said of the list of rows that a reading of the table now answers.
-/

namespace TraceAtlas

/-- Tables that keep what they were seen to hold while others write to them. -/
class SharedTable (σ : Type) [EntryTable σ] where
  /-- Another writer creates a row for an entry; nothing happens if it is refused. -/
  write : Entry → σ → σ
  /-- A reading of the table answers these rows. -/
  Shows : σ → List Row → Prop
  rows_eq {t : σ} {rows : List Row} : Shows t rows → (EntryTable.rows t).1 = .ok rows
  keys {t : σ} {rows : List Row} : Shows t rows → (rows.map Prod.fst).Nodup
  rows_shows {t : σ} {rows : List Row} : Shows t rows → Shows (EntryTable.rows t).2 rows
  invalidate_shows {t : σ} {rows : List Row} : Shows t rows →
    ∃ more, Shows (EntryTable.invalidate t) more ∧ rows ⊆ more
  write_shows {t : σ} {rows : List Row} (entry : Entry) : Shows t rows →
    ∃ more, Shows (write entry t) more ∧ rows ⊆ more
  create_shows {t u : σ} {rows : List Row} {entry : Entry} {key : RowKey} : Shows t rows →
    EntryTable.create entry t = (.ok key, u) →
      key ∉ rows.map Prod.fst ∧ Shows u (rows ++ [(key, entry)])
  refused_shows {t u : σ} {rows : List Row} {entry : Entry} {e : TableError} : Shows t rows →
    EntryTable.create entry t = (.error e, u) → Shows u rows

/-! ## Tables in memory -/

namespace MemoryTable

structure Shows (t : MemoryTable) (rows : List Row) : Prop extends Holds t rows where
  keys : (rows.map Prod.fst).Nodup

theorem shows_nil (name : String) : Shows { name } [] := ⟨holds_nil name, List.nodup_nil⟩

theorem Shows.create {t : MemoryTable} {rows : List Row} (h : Shows t rows) (entry : Entry) :
    (t.create entry).1 ∉ rows.map Prod.fst ∧
      Shows (t.create entry).2 (rows ++ [((t.create entry).1, entry)]) := by
  obtain ⟨hkey, hholds⟩ := holds_create h.toHolds entry
  exact ⟨hkey, hholds, nodup_keys_concat h.keys hkey entry⟩

/-- Another clone of the table creates a row. -/
instance : SharedTable MemoryTable where
  write entry t := (t.create entry).2
  Shows := Shows
  rows_eq h := congrArg Except.ok h.stored
  keys h := h.keys
  rows_shows h := h
  invalidate_shows {t rows} h := ⟨rows, ⟨⟨h.stored, h.below⟩, h.keys⟩, fun _ hrow => hrow⟩
  write_shows {t rows} entry h := ⟨_, (h.create entry).2, List.subset_append_left _ _⟩
  create_shows h hcreate := by
    cases hcreate
    exact h.create _
  refused_shows _ hcreate := by cases hcreate

end MemoryTable

/-- The others are not subject to the plan of failures. -/
instance : SharedTable FaultyTable where
  write entry t := { t with table := (t.table.create entry).2 }
  Shows t rows := t.table.Shows rows
  rows_eq h := congrArg Except.ok h.stored
  keys h := h.keys
  rows_shows h := h
  invalidate_shows {t rows} h := ⟨rows, ⟨⟨h.stored, h.below⟩, h.keys⟩, fun _ hrow => hrow⟩
  write_shows {t rows} entry h := ⟨_, (h.create entry).2, List.subset_append_left _ _⟩
  create_shows {t u rows entry key} h hcreate := by
    obtain ⟨table, plan⟩ := t
    rcases plan with _ | ⟨_ | fault, plan⟩ <;> cases hcreate <;> exact h.create entry
  refused_shows {t u rows entry e} h hcreate := by
    obtain ⟨table, plan⟩ := t
    rcases plan with _ | ⟨_ | fault, plan⟩ <;> cases hcreate
    exact h

/-! ## Tables in files -/

namespace FileOnDisk

open FileTable

variable {root name : String} {t u : FileOnDisk} {rows : List Row}

/-- A handle on the file of a table answers rows that are on the disk: all of them, or those that it
keeps. -/
structure Shows (root name : String) (t : FileOnDisk) (rows : List Row) : Prop where
  name_eq : t.table.name = name
  path_eq : t.table.path = file root name
  laid : ∃ all, Laid t.disk root name all ∧ (all.map Prod.fst).Nodup ∧
    (t.table.kept = some rows ∧ rows.Sublist all ∨ t.table.kept = none ∧ rows = all)

theorem Shows.sublist (h : Shows root name t rows) :
    ∃ all, Laid t.disk root name all ∧ (all.map Prod.fst).Nodup ∧ rows.Sublist all := by
  obtain ⟨all, hlaid, hkeys, ⟨-, hsub⟩ | ⟨-, rfl⟩⟩ := h.laid
  · exact ⟨all, hlaid, hkeys, hsub⟩
  · exact ⟨rows, hlaid, hkeys, .refl rows⟩

theorem Shows.rows_eq (h : Shows root name t rows) : t.table.rows t.disk = .ok rows := by
  obtain ⟨all, hlaid, -, ⟨hkept, -⟩ | ⟨hkept, rfl⟩⟩ := h.laid
  · unfold FileTable.rows
    rw [hkept]
  · unfold FileTable.rows
    rw [hkept, h.path_eq, h.name_eq]
    exact hlaid.read

/-- A row that is created through a handle on the file stands behind those that are there. -/
theorem Laid.createRow {d e : Disk} {table : FileTable} {all : List Row} {entry : Entry}
    {key : RowKey} (laid : Laid d root name all) (name_eq : table.name = name)
    (path_eq : table.path = file root name) (hcreate : table.createRow d entry = .ok (key, e)) :
    key ∉ all.map Prod.fst ∧ Laid e root name (all ++ [(key, entry)]) := by
  obtain ⟨read, hread, rfl, happend⟩ := createRow_eq_ok.mp hcreate
  rw [path_eq, name_eq, laid.read] at hread
  cases hread
  rw [path_eq] at happend
  exact ⟨Log.nextKey_not_mem all, laid.append happend⟩

theorem Shows.create (h : Shows root name t rows) {entry : Entry} {key : RowKey}
    (hcreate : FileOnDisk.create entry t = (.ok key, u)) :
    key ∉ rows.map Prod.fst ∧ Shows root name u (rows ++ [(key, entry)]) := by
  unfold FileOnDisk.create at hcreate
  split at hcreate
  · cases hcreate
  · next k disk hrow =>
      cases hcreate
      obtain ⟨all, hlaid, hkeys, hkept⟩ := h.laid
      obtain ⟨hkey, hnew⟩ := Laid.createRow hlaid h.name_eq h.path_eq hrow
      have hall := nodup_keys_concat hkeys hkey entry
      rcases hkept with ⟨hkept, hsub⟩ | ⟨hkept, rfl⟩
      · -- the handle keeps what it had, and the new row behind it
        have hkey' : key ∉ rows.map Prod.fst := fun hmem => hkey ((hsub.map Prod.fst).subset hmem)
        refine ⟨hkey', h.name_eq, h.path_eq, _, hnew, hall, .inl ⟨by simp [hkept], ?_⟩⟩
        exact hsub.append (.refl _)
      · exact ⟨hkey, h.name_eq, h.path_eq, _, hnew, hall, .inr ⟨by simp [hkept], rfl⟩⟩

/-- What another handle on the file does with an entry. -/
def write (entry : Entry) (t : FileOnDisk) : FileOnDisk :=
  match t.table.createRow t.disk entry with
  | .error _ => t
  | .ok (_, disk) => { t with disk }

theorem Shows.write (h : Shows root name t rows) (entry : Entry) :
    ∃ more, Shows root name (t.write entry) more ∧ rows ⊆ more := by
  unfold FileOnDisk.write
  split
  · exact ⟨rows, h, fun _ hrow => hrow⟩
  · next key disk hrow =>
      obtain ⟨all, hlaid, hkeys, hkept⟩ := h.laid
      obtain ⟨hkey, hnew⟩ := Laid.createRow hlaid h.name_eq h.path_eq hrow
      have hall := nodup_keys_concat hkeys hkey entry
      rcases hkept with ⟨hkept, hsub⟩ | ⟨hkept, rfl⟩
      · -- the handle keeps what it had and does not see the new row
        refine ⟨rows, ⟨h.name_eq, h.path_eq, _, hnew, hall, .inl ⟨hkept, ?_⟩⟩, fun _ hrow => hrow⟩
        exact hsub.trans (List.sublist_append_left _ _)
      · exact ⟨_, ⟨h.name_eq, h.path_eq, _, hnew, hall, .inr ⟨hkept, rfl⟩⟩,
          List.subset_append_left _ _⟩

/-- The table of a name below a root directory, which is written to through any number of handles.
-/
@[reducible] def shared (root name : String) : SharedTable FileOnDisk where
  write := FileOnDisk.write
  Shows := Shows root name
  rows_eq {t rows} h := by
    show (FileOnDisk.rows t).1 = _
    unfold FileOnDisk.rows
    rw [h.rows_eq]
  keys h := by
    obtain ⟨all, -, hkeys, hsub⟩ := h.sublist
    exact (hsub.map Prod.fst).nodup hkeys
  rows_shows {t rows} h := by
    show Shows root name (FileOnDisk.rows t).2 rows
    unfold FileOnDisk.rows
    rw [h.rows_eq]
    obtain ⟨all, hlaid, hkeys, hsub⟩ := h.sublist
    exact ⟨h.name_eq, h.path_eq, all, hlaid, hkeys, .inl ⟨rfl, hsub⟩⟩
  invalidate_shows h := by
    obtain ⟨all, hlaid, hkeys, hsub⟩ := h.sublist
    exact ⟨all, ⟨h.name_eq, h.path_eq, all, hlaid, hkeys, .inr ⟨rfl, rfl⟩⟩, hsub.subset⟩
  write_shows entry h := h.write entry
  create_shows h hcreate := h.create hcreate
  refused_shows {t u rows entry e} h hcreate := by
    change FileOnDisk.create entry t = (.error e, u) at hcreate
    unfold FileOnDisk.create at hcreate
    split at hcreate
    · cases hcreate
      exact h
    · cases hcreate

end FileOnDisk
end TraceAtlas
