import TraceAtlas.Proofs.SortedMap
import TraceAtlas.Table.Memory

/-!
# Tables that keep their rows

A registry that is the only writer of its table relies on little: a new row gets a key of its own
and stands behind the others, and nothing that fails and nothing that reads changes a row.
`LawfulTable` is that much, said of an abstract list of rows which a state of the table `Holds`.
-/

namespace TraceAtlas

/-- Tables that keep what was created and nothing else. -/
class LawfulTable (σ : Type) [EntryTable σ] where
  /-- The state holds these rows, in this order, and can answer them. -/
  Holds : σ → List Row → Prop
  rows_eq {t : σ} {rows : List Row} : Holds t rows → (EntryTable.rows t).1 = .ok rows
  rows_holds {t : σ} {rows : List Row} : Holds t rows → Holds (EntryTable.rows t).2 rows
  invalidate_holds {t : σ} {rows : List Row} : Holds t rows → Holds (EntryTable.invalidate t) rows
  create_holds {t u : σ} {rows : List Row} {entry : Entry} {key : RowKey} : Holds t rows →
    EntryTable.create entry t = (.ok key, u) →
      key ∉ rows.map Prod.fst ∧ Holds u (rows ++ [(key, entry)])
  /-- A row that was not created is not there. -/
  refused_holds {t u : σ} {rows : List Row} {entry : Entry} {e : TableError} : Holds t rows →
    EntryTable.create entry t = (.error e, u) → Holds u rows

/-- A row under a new key leaves the keys distinct. -/
theorem nodup_keys_concat {rows : List Row} {key : RowKey} (h : (rows.map Prod.fst).Nodup)
    (hkey : key ∉ rows.map Prod.fst) (entry : Entry) :
    ((rows ++ [(key, entry)]).map Prod.fst).Nodup := by
  rw [List.map_append, List.nodup_append]
  refine ⟨h, by simp, ?_⟩
  intro k hk k' hk' hsame
  rw [List.map_singleton, List.mem_singleton] at hk'
  rw [hsame, hk'] at hk
  exact hkey hk

namespace MemoryTable

/-- The rows of a table are in front of its next key. -/
structure Holds (t : MemoryTable) (rows : List Row) : Prop where
  stored : t.rows = rows
  below : ∀ row ∈ rows, row.1 < t.nextKey

theorem holds_nil (name : String) : Holds { name } [] := ⟨rfl, by simp⟩

theorem holds_create {t : MemoryTable} {rows : List Row} (h : Holds t rows) (entry : Entry) :
    (t.create entry).1 ∉ rows.map Prod.fst ∧
      Holds (t.create entry).2 (rows ++ [((t.create entry).1, entry)]) := by
  refine ⟨?_, ?_, ?_⟩
  · intro hmem
    obtain ⟨row, hrow, hkey⟩ := List.mem_map.mp hmem
    have hlt := h.below row hrow
    rw [hkey] at hlt
    exact Nat.lt_irrefl _ hlt
  · rw [← h.stored]
    apply SortedMap.insertSorted_of_forall_gt
    intro row hrow
    have hlt := h.below row (h.stored ▸ hrow)
    exact Nat.compare_eq_gt.mpr hlt
  · intro row hrow
    show row.1 < t.nextKey + 1
    rcases List.mem_append.mp hrow with hrow | hrow
    · exact Nat.lt_succ_of_lt (h.below row hrow)
    · rw [List.mem_singleton.mp hrow]
      exact Nat.lt_succ_self t.nextKey

instance : LawfulTable MemoryTable where
  Holds := Holds
  rows_eq h := congrArg Except.ok h.stored
  rows_holds h := h
  invalidate_holds h := ⟨h.stored, h.below⟩
  create_holds h hcreate := by
    cases hcreate
    exact holds_create h _
  refused_holds _ hcreate := by cases hcreate

end MemoryTable

/-- Failures on purpose leave the rows alone. -/
instance : LawfulTable FaultyTable where
  Holds t rows := t.table.Holds rows
  rows_eq h := congrArg Except.ok h.stored
  rows_holds h := h
  invalidate_holds h := ⟨h.stored, h.below⟩
  create_holds {t u rows entry key} h hcreate := by
    obtain ⟨table, plan⟩ := t
    rcases plan with _ | ⟨_ | fault, plan⟩ <;> cases hcreate <;>
      exact MemoryTable.holds_create h entry
  refused_holds {t u rows entry e} h hcreate := by
    obtain ⟨table, plan⟩ := t
    rcases plan with _ | ⟨_ | fault, plan⟩ <;> cases hcreate
    exact h

end TraceAtlas
