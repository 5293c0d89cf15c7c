import TraceAtlas.Proofs.AppendOnly

/-!
# Tables that a creation adds one row to

A table is read in two ways: its handle answers rows that it may have kept from an earlier reading,
and a handle that was told to look again answers what is there. A creation that succeeds adds the
same row to both and nothing else (`GainsRow`), and one that fails to neither (`SameRows`).

Unlike a `LawfulTable`, an `AppendingTable` need not be readable, and its handle need not know what
others have written. It only has to be `Sound`, which no table stops to be by being used; a table
file is not sound when somebody has emptied it.
-/

namespace TraceAtlas

section Readings

variable {σ : Type} [EntryTable σ]

/-- What is answered when the table was told to look again. -/
def EntryTable.anew (t : σ) : Except TableError (List Row) :=
  (EntryTable.rows (EntryTable.invalidate t)).1

/-- Both readings are the same, also where they fail. -/
structure SameRows (t u : σ) : Prop where
  kept : (EntryTable.rows u).1 = (EntryTable.rows t).1
  anew : EntryTable.anew u = EntryTable.anew t

/-- Both readings have got one more row, whose key was not in use. -/
structure GainsRow (t : σ) (row : Row) (u : σ) : Prop where
  kept : ∃ rows, (EntryTable.rows t).1 = .ok rows ∧ (EntryTable.rows u).1 = .ok (rows ++ [row])
  anew : ∃ rows, EntryTable.anew t = .ok rows ∧ row.1 ∉ rows.map Prod.fst ∧
    EntryTable.anew u = .ok (rows ++ [row])

theorem SameRows.refl (t : σ) : SameRows t t := ⟨rfl, rfl⟩

/-- Tables to which creations add rows one by one. -/
class AppendingTable (σ : Type) [EntryTable σ] where
  Sound : σ → Prop
  created {t u : σ} {entry : Entry} {key : RowKey} : Sound t →
    EntryTable.create entry t = (.ok key, u) → GainsRow t (key, entry) u ∧ Sound u
  refused {t u : σ} {entry : Entry} {e : TableError} :
    EntryTable.create entry t = (.error e, u) → SameRows t u ∧ (Sound t → Sound u)
  rows_sound {t : σ} : Sound t → Sound (EntryTable.rows t).2
  invalidate_sound {t : σ} : Sound t → Sound (EntryTable.invalidate t)

/-- A sound table with a key left for another row. Keys are words of 64 bits, and nothing is said
here of what a creation does behind the last of them. -/
structure AppendingTable.Ready [AppendingTable σ] (t : σ) : Prop where
  sound : AppendingTable.Sound t
  room : ∀ rows, EntryTable.anew t = .ok rows → ∀ row ∈ rows, row.1 + 1 < UInt64.size

end Readings

/-! ## Tables in memory -/

namespace MemoryTable

/-- No row is at or above the next key. -/
def Sound (t : MemoryTable) : Prop := t.Holds t.rows

theorem Sound.rows_create {t : MemoryTable} (h : t.Sound) (entry : Entry) :
    (t.create entry).2.rows = t.rows ++ [((t.create entry).1, entry)] :=
  (holds_create h entry).2.stored

theorem Sound.create {t : MemoryTable} (h : t.Sound) (entry : Entry) :
    (t.create entry).2.Sound := by
  obtain ⟨-, hholds⟩ := holds_create h entry
  unfold Sound
  rw [hholds.stored]
  exact hholds

/-- Rows can be removed without harm. -/
theorem Sound.remove {t : MemoryTable} (h : t.Sound) (key : RowKey) : (t.remove key).2.Sound :=
  ⟨rfl, fun row hrow => h.below row (List.mem_of_mem_filter hrow)⟩

instance : AppendingTable MemoryTable where
  Sound := Sound
  created {t u entry key} h hcreate := by
    cases hcreate
    have hrows := congrArg (Except.ok (ε := TableError)) (h.rows_create entry)
    exact ⟨⟨⟨t.rows, rfl, hrows⟩, t.rows, rfl, (holds_create h entry).1, hrows⟩, h.create entry⟩
  refused hcreate := by cases hcreate
  rows_sound h := h
  invalidate_sound h := ⟨h.stored, h.below⟩

end MemoryTable

/-- A creation that fails on purpose leaves the rows alone. -/
instance : AppendingTable FaultyTable where
  Sound t := t.table.Sound
  created {t u entry key} h hcreate := by
    obtain ⟨table, plan⟩ := t
    have hrows := congrArg (Except.ok (ε := TableError)) (MemoryTable.Sound.rows_create h entry)
    have hkey := (MemoryTable.holds_create h entry).1
    rcases plan with _ | ⟨_ | fault, plan⟩ <;> cases hcreate <;>
      exact ⟨⟨⟨table.rows, rfl, hrows⟩, table.rows, rfl, hkey, hrows⟩,
        MemoryTable.Sound.create h entry⟩
  refused {t u entry e} hcreate := by
    obtain ⟨table, plan⟩ := t
    rcases plan with _ | ⟨_ | fault, plan⟩ <;> cases hcreate
    exact ⟨⟨rfl, rfl⟩, fun h => h⟩
  rows_sound h := h
  invalidate_sound h := ⟨h.stored, h.below⟩

/-! ## Tables in files -/

namespace FileOnDisk

open FileTable

variable {t u : FileOnDisk} {entry : Entry} {key : RowKey}

/-- The file has been begun: it is not there or not empty. -/
def Begun (t : FileOnDisk) : Prop := t.disk.read t.table.path ≠ .ok []

theorem anew_eq (t : FileOnDisk) :
    EntryTable.anew t = FileTable.read t.disk t.table.path t.table.name := by
  show (FileOnDisk.rows _).1 = _
  unfold FileOnDisk.rows FileTable.rows
  dsimp only [EntryTable.invalidate, FileTable.invalidate]
  cases FileTable.read t.disk t.table.path t.table.name <;> rfl

theorem rows_fst (t : FileOnDisk) : (FileOnDisk.rows t).1 = t.table.rows t.disk := by
  unfold FileOnDisk.rows
  cases t.table.rows t.disk <;> rfl

/-- Opening a handle begins its file. -/
theorem begun_of_openAt {d : Disk} {root name : String} {table : FileTable}
    (h : (openAt d root name).table = .ok table) :
    Begun ⟨(openAt d root name).disk, table⟩ := by
  obtain ⟨rows, rfl, hlaid⟩ := openAt_laid h
  obtain ⟨content, hcontent, hsome, -⟩ := hlaid.content
  intro hempty
  exact hsome (Except.ok.inj (hcontent.symm.trans hempty))

/-- A row is added behind those of the file and behind those that the handle keeps, which need not
be the same. -/
theorem Begun.create (h : t.Begun) (hcreate : FileOnDisk.create entry t = (.ok key, u)) :
    GainsRow t (key, entry) u ∧ u.Begun := by
  unfold FileOnDisk.create at hcreate
  split at hcreate
  · cases hcreate
  · next k disk hrow =>
      cases hcreate
      obtain ⟨old, rows, bytes, hold, hrows, hbelow, hframe, happends⟩ := createRow_appends hrow
      have hsome : old ≠ [] := by
        rintro rfl
        exact h hold
      have hread : FileTable.read t.disk t.table.path t.table.name = .ok rows :=
        read_eq_ok.mpr ⟨old, hold, hrows⟩
      have hnew : FileTable.read disk t.table.path t.table.name = .ok (rows ++ [(key, entry)]) :=
        read_eq_ok.mpr ⟨_, happends.read, Log.rows_append_row hsome hrows hframe⟩
      refine ⟨⟨?_, rows, ?_, ?_, ?_⟩, ?_⟩
      · show ∃ rows, (FileOnDisk.rows t).1 = _ ∧ (FileOnDisk.rows _).1 = _
        rw [rows_fst, rows_fst]
        unfold FileTable.rows
        cases t.table.kept with
        | none => exact ⟨rows, hread, hnew⟩
        | some kept => exact ⟨kept, rfl, rfl⟩
      · rw [anew_eq, hread]
      · intro hmem
        obtain ⟨row, hrow, hkey⟩ := List.mem_map.mp hmem
        exact absurd (hbelow row hrow) (by simp [hkey])
      · rw [anew_eq]
        exact hnew
      · show disk.read t.table.path ≠ .ok []
        rw [happends.read]
        simp [hsome]

instance : AppendingTable FileOnDisk where
  Sound := Begun
  created h hcreate := h.create hcreate
  refused {t u entry e} hcreate := by
    change FileOnDisk.create entry t = (.error e, u) at hcreate
    unfold FileOnDisk.create at hcreate
    split at hcreate <;> cases hcreate
    exact ⟨.refl t, fun h => h⟩
  rows_sound {t} h := by
    show (FileOnDisk.rows t).2.Begun
    unfold FileOnDisk.rows
    split <;> exact h
  invalidate_sound h := h

end FileOnDisk
end TraceAtlas
