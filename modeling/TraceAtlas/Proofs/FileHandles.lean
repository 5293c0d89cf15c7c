import Mathlib.Data.List.Induction
import TraceAtlas.Proofs.SharedTable

/-!
# Handles on a table file answer like clones of a table in memory

The same calls are made on the handles of one table file and on the clones of one table in memory,
in any order. `answer_agrees` says how far the answers are the same (`Agrees`): every creation
answers the same key, and a listing answers the rows of the table in memory, in key order, but may
leave out rows that other handles created since this handle last read the file.

The two sides are run by one definition, over what is known of either as `TableClones`. What joins
their states is `Mirrors`: the file holds the rows that the table in memory has, and each handle
keeps a part of them (`Sees`). Which part is bounded from below by what can be read off the calls
and answers so far, the rows created through the handle and whether it has read the file since its
rows were dropped.
-/

namespace TraceAtlas

/-! ## Calls and answers -/

/-- What is asked of a table through its handles, which are numbered as they are opened. -/
inductive TableCall where
  | openNew
  | create (handle : Nat) (entry : Entry)
  | rows (handle : Nat)
  | invalidate (handle : Nat)
deriving DecidableEq

def TableCall.handle? : TableCall → Option Nat
  | .openNew => none
  | .create h _ => some h
  | .rows h => some h
  | .invalidate h => some h

inductive TableAnswer where
  /-- There is no handle of this number yet. -/
  | noHandle
  | done
  | key (key : RowKey)
  | rows (rows : List Row)
  | refused (error : TableError)
deriving DecidableEq

namespace TableAnswer

def ofOpening : Except TableError Unit → TableAnswer
  | .ok () => .done
  | .error e => .refused e

def ofKey : Except TableError RowKey → TableAnswer
  | .ok k => .key k
  | .error e => .refused e

def ofRows : Except TableError (List Row) → TableAnswer
  | .ok rs => .rows rs
  | .error e => .refused e

end TableAnswer

/-- States of one table with all its handles, each of which is an entry table when it is used. -/
class TableClones (σ : Type) (τ : outParam Type) [EntryTable τ] where
  openNew : σ → Except TableError Unit × σ
  handle? : σ → Nat → Option τ
  put : σ → Nat → τ → σ

namespace TableClones

variable {σ τ : Type} [EntryTable τ] [TableClones σ τ]

/-- Uses a handle, if there is one of this number. -/
def use (s : σ) (h : Nat) (act : τ → TableAnswer × τ) : TableAnswer × σ :=
  match handle? s h with
  | none => (.noHandle, s)
  | some t => ((act t).1, put s h (act t).2)

def step (s : σ) : TableCall → TableAnswer × σ
  | .openNew => (.ofOpening (openNew s).1, (openNew s).2)
  | .create h e => use s h fun t => (.ofKey (EntryTable.create e t).1, (EntryTable.create e t).2)
  | .rows h => use s h fun t => (.ofRows (EntryTable.rows t).1, (EntryTable.rows t).2)
  | .invalidate h => use s h fun t => (.done, EntryTable.invalidate t)

def after (s : σ) (calls : List TableCall) : σ := calls.foldl (fun s c => (step s c).2) s

/-- The calls with the answers that they are given. -/
def trace (s : σ) : List TableCall → List (TableCall × TableAnswer)
  | [] => []
  | c :: calls => (c, (step s c).1) :: trace (step s c).2 calls

theorem after_concat (s : σ) (calls : List TableCall) (c : TableCall) :
    after s (calls ++ [c]) = (step (after s calls) c).2 := by
  simp [after]

theorem trace_concat (s : σ) (calls : List TableCall) (c : TableCall) :
    trace s (calls ++ [c]) = trace s calls ++ [(c, (step (after s calls) c).1)] := by
  induction calls generalizing s with
  | nil => rfl
  | cons first calls ih =>
      rw [List.cons_append, trace, ih]
      rfl

end TableClones

/-- The handles on one table file. -/
structure FileHandles where
  root : String
  name : String
  disk : Disk
  handles : List FileTable := []

instance : TableClones FileHandles FileOnDisk where
  openNew s :=
    let opened := FileTable.openAt s.disk s.root s.name
    match opened.table with
    | .error e => (.error e, { s with disk := opened.disk })
    | .ok t => (.ok (), { s with disk := opened.disk, handles := s.handles ++ [t] })
  handle? s h := s.handles[h]?.map fun t => ⟨s.disk, t⟩
  put s h t := { s with disk := t.disk, handles := s.handles.set h t.table }

/-- The clones of one table in memory, which all have the same rows. -/
structure MemoryClones where
  table : MemoryTable
  count : Nat := 0

instance : TableClones MemoryClones MemoryTable where
  openNew s := (.ok (), { s with count := s.count + 1 })
  handle? s h := if h < s.count then some s.table else none
  put s _ t := { s with table := t }

/-! ## What the answers so far say of a handle -/

/-- Calls with their answers. -/
abbrev TableTrace := List (TableCall × TableAnswer)

namespace TableTrace

/-- The rows that were created through a handle. -/
def created (h : Nat) (seen : TableTrace) : List Row :=
  seen.filterMap fun
    | (.create h' e, .key k) => if h' = h then some (k, e) else none
    | _ => none

/-- The rows that a handle kept were dropped, and it has not listed rows since. -/
def Dropped (h : Nat) (seen : TableTrace) : Prop :=
  ∃ before behind, seen = before ++ (.invalidate h, .done) :: behind ∧
    ∀ a, (.rows h, a) ∉ behind

variable {h h' : Nat} {seen : TableTrace} {c : TableCall} {a : TableAnswer}

theorem created_concat (h : Nat) (seen : TableTrace) (c : TableCall × TableAnswer) :
    created h (seen ++ [c]) = created h seen ++ created h [c] := by
  simp only [created, List.filterMap_append]

theorem dropped_concat : Dropped h (seen ++ [(c, a)]) ↔
    (c = .invalidate h ∧ a = .done) ∨ (c ≠ .rows h ∧ Dropped h seen) := by
  constructor
  · rintro ⟨before, behind, hseen, hnone⟩
    rcases List.eq_nil_or_concat' behind with rfl | ⟨behind, last, rfl⟩
    · obtain ⟨-, hlast⟩ := List.append_inj' hseen rfl
      cases hlast
      exact .inl ⟨rfl, rfl⟩
    · rw [← List.cons_append, ← List.append_assoc] at hseen
      obtain ⟨hfront, hlast⟩ := List.append_inj' hseen rfl
      cases hlast
      refine .inr ⟨?_, before, behind, hfront, ?_⟩
      · rintro rfl
        exact hnone a (by simp)
      · intro b hb
        exact hnone b (List.mem_append_left _ hb)
  · rintro (⟨rfl, rfl⟩ | ⟨hc, before, behind, rfl, hnone⟩)
    · exact ⟨seen, [], rfl, by simp⟩
    · refine ⟨before, behind ++ [(c, a)], by simp, ?_⟩
      intro b hb
      rcases List.mem_append.mp hb with hb | hb
      · exact hnone b hb
      · cases List.mem_singleton.mp hb
        exact hc rfl

/-- A call says nothing of the handles that it is not made on. -/
theorem created_of_ne (hc : c.handle? ≠ some h) :
    created h (seen ++ [(c, a)]) = created h seen := by
  have hnone : created h [(c, a)] = [] := by
    cases c <;> cases a <;> simp_all [created, TableCall.handle?]
  rw [created_concat, hnone, List.append_nil]

theorem dropped_of_ne (hc : c.handle? ≠ some h) (hdropped : Dropped h (seen ++ [(c, a)])) :
    Dropped h seen := by
  rcases dropped_concat.mp hdropped with ⟨rfl, -⟩ | ⟨-, hdropped⟩
  · exact absurd rfl hc
  · exact hdropped

end TableTrace

open TableTrace

/-- How the answer of a file handle to a call agrees with that of a clone in memory, after `seen`.
-/
inductive Agrees (seen : TableTrace) (opened : Nat) : TableCall → TableAnswer → TableAnswer → Prop
  | noHandle {c : TableCall} {h : Nat} (hcall : c.handle? = some h) (hopened : opened ≤ h) :
      Agrees seen opened c .noHandle .noHandle
  | opened : Agrees seen opened .openNew .done .done
  | created {h : Nat} (e : Entry) (k : RowKey) (hopened : h < opened) :
      Agrees seen opened (.create h e) (.key k) (.key k)
  | listed {h : Nat} {rows all : List Row} (hopened : h < opened) (part : rows.Sublist all)
      (increasing : rows.Pairwise fun r r' => r.1 < r'.1) (own : created h seen ⊆ rows)
      (whole : Dropped h seen → rows = all) :
      Agrees seen opened (.rows h) (.rows rows) (.rows all)
  | invalidated {h : Nat} (hopened : h < opened) : Agrees seen opened (.invalidate h) .done .done

/-! ## A table that is begun -/

namespace FileTable

variable {d : Disk} {root name : String} {rows : List Row}

/-- A table of the name can be begun: its directory is there or can be made, and nothing stands
where its file would be. -/
def Absent (d : Disk) (root name : String) : Prop :=
  ∃ made place, d.makeDirectories (directory root) = (.ok (), made) ∧
    made.locate (file root name) = .ok place ∧ made.node? place = none

theorem Absent.openAt (h : Absent d root name) : ∃ e,
    openAt d root name =
      ⟨.ok ⟨name, file root name, some []⟩, e, [.tableCreated name (file root name)]⟩ ∧
    Laid e root name [] := by
  obtain ⟨made, place, hmade, hlocate, hnone⟩ := h
  obtain ⟨bytes, hframe, hrows⟩ := Log.frameOf_header
  have hfresh : made.isFresh (file root name) = .ok true := by
    simp [Disk.isFresh, hlocate, hnone]
  obtain ⟨e, hdisk⟩ := Disk.exists_update hlocate (by simp [hnone]) (· ++ bytes)
  have happend : append made (file root name) (.header schemaVersion) = .ok e :=
    append_eq_ok.mpr ⟨bytes, hframe, hdisk⟩
  obtain ⟨grows, old, hnew, hold⟩ := Disk.update_eq_ok hdisk
  obtain rfl : old = [] := by
    rcases hold with hold | ⟨-, hold⟩
    · -- a file that is not there cannot be read
      obtain ⟨place', hlocate', hfile⟩ := Disk.read_eq_ok.mp hold
      obtain rfl := Except.ok.inj (hlocate.symm.trans hlocate')
      rw [hnone] at hfile
      cases hfile
    · exact hold
  have hread : read e (file root name) name = .ok [] := read_eq_ok.mpr ⟨_, hnew, hrows name⟩
  have hlaid : Laid e root name [] :=
    ⟨Disk.makeDirectories_of_grows hmade grows, _, hnew, ne_nil_of_append happend hnew, hrows name⟩
  exact ⟨e, openAt_of_fresh hmade hfresh happend hread, hlaid⟩

/-- A row that fits can be created through any handle on the file. -/
theorem Laid.exists_createRow (h : Laid d root name rows) {t : FileTable} (hname : t.name = name)
    (hpath : t.path = file root name) {entry : Entry} (hfits : Log.Fits (Log.nextKey rows, entry)) :
    ∃ e, t.createRow d entry = .ok (Log.nextKey rows, e) ∧
      Laid e root name (rows ++ [(Log.nextKey rows, entry)]) := by
  obtain ⟨bytes, hframe⟩ := Log.frameOf_of_fits hfits
  obtain ⟨content, hcontent, -⟩ := h.content
  obtain ⟨place, hlocate, hfile⟩ := Disk.read_eq_ok.mp hcontent
  obtain ⟨e, hdisk⟩ := Disk.exists_update hlocate (by simp [hfile]) (· ++ bytes)
  have happend : FileTable.append d (file root name) (.row (Log.nextKey rows) entry) = .ok e :=
    append_eq_ok.mpr ⟨bytes, hframe, hdisk⟩
  refine ⟨e, createRow_eq_ok.mpr ⟨rows, ?_, rfl, ?_⟩, h.append happend⟩
  · rw [hname, hpath]
    exact h.read
  · rw [hpath]
    exact happend

end FileTable

/-! ## Keys of a table in memory -/

namespace MemoryTable

variable {t : MemoryTable}

/-- The keys were handed out one after the other and no row was removed. -/
def Numbered (t : MemoryTable) : Prop := t.rows.map Prod.fst = List.range t.nextKey

theorem Numbered.rows_create (h : t.Numbered) (e : Entry) :
    (t.create e).2.rows = t.rows ++ [(t.nextKey, e)] := by
  apply (holds_create ⟨rfl, _⟩ e).2.stored
  intro row hrow
  have hmem := List.mem_map_of_mem (f := Prod.fst) hrow
  rw [h, List.mem_range] at hmem
  exact hmem

theorem Numbered.create (h : t.Numbered) (e : Entry) : (t.create e).2.Numbered := by
  unfold Numbered
  rw [h.rows_create, List.map_append, h]
  exact List.range_succ.symm

/-- The rows stand in key order. -/
theorem Numbered.increasing (h : t.Numbered) : t.rows.Pairwise fun r r' => r.1 < r'.1 := by
  have hkeys : (t.rows.map Prod.fst).Pairwise (· < ·) := by
    rw [h]
    exact List.pairwise_lt_range
  exact List.pairwise_map.mp hkeys

end MemoryTable

/-! ## Both sides of a run -/

open FileTable

/-- What a handle keeps of all rows: nothing, or a part in which its own rows are. A handle whose
rows were dropped keeps nothing. -/
structure Sees (root name : String) (all own : List Row) (dropped : Prop) (t : FileTable) :
    Prop where
  name_eq : t.name = name
  path_eq : t.path = file root name
  own_subset : own ⊆ all
  kept : ∀ kept ∈ t.kept, kept.Sublist all ∧ own ⊆ kept ∧ ¬dropped

theorem Sees.mono {root name : String} {all all' own : List Row} {dropped dropped' : Prop}
    {t : FileTable} (h : Sees root name all own dropped t) (hall : all.Sublist all')
    (hdropped : dropped' → dropped) : Sees root name all' own dropped' t := by
  refine ⟨h.name_eq, h.path_eq, List.Subset.trans h.own_subset hall.subset, ?_⟩
  intro kept hkept
  obtain ⟨hpart, hown, hnot⟩ := h.kept kept hkept
  exact ⟨hpart.trans hall, hown, fun hnew => hnot (hdropped hnew)⟩

/-- The handles on a file mirror the clones of a table in memory after so many openings. -/
structure Mirrors (d : Disk) (root name : String) (opened : Nat) (seen : TableTrace)
    (files : FileHandles) (memory : MemoryClones) : Prop where
  root_eq : files.root = root
  name_eq : files.name = name
  handles_length : files.handles.length = opened
  count_eq : memory.count = opened
  numbered : memory.table.Numbered
  disk : opened = 0 ∧ files.disk = d ∧ memory.table.rows = [] ∨
    Laid files.disk root name memory.table.rows
  sees : ∀ h t, files.handles[h]? = some t →
    Sees root name memory.table.rows (created h seen) (Dropped h seen) t
  unseen : ∀ h, opened ≤ h → created h seen = [] ∧ ¬Dropped h seen

namespace Mirrors

variable {d : Disk} {root name : String} {opened : Nat} {seen : TableTrace} {files : FileHandles}
  {memory : MemoryClones} {h : Nat} {t : FileTable} {c : TableCall} {a : TableAnswer}

theorem start (d : Disk) (root name : String) :
    Mirrors d root name 0 [] ⟨root, name, d, []⟩ ⟨{ name }, 0⟩ where
  root_eq := rfl
  name_eq := rfl
  handles_length := rfl
  count_eq := rfl
  numbered := rfl
  disk := .inl ⟨rfl, rfl, rfl⟩
  sees h t ht := by cases ht
  unseen h _ := by
    refine ⟨rfl, ?_⟩
    rintro ⟨before, behind, hseen, -⟩
    cases before <;> cases hseen

theorem lt_of_handle (m : Mirrors d root name opened seen files memory)
    (ht : files.handles[h]? = some t) : h < opened := by
  obtain ⟨hlt, -⟩ := List.getElem?_eq_some_iff.mp ht
  exact m.handles_length ▸ hlt

theorem laid (m : Mirrors d root name opened seen files memory) (hopened : 0 < opened) :
    Laid files.disk root name memory.table.rows := by
  rcases m.disk with ⟨hzero, -⟩ | hlaid
  · exact absurd hzero (Nat.ne_of_gt hopened)
  · exact hlaid

/-- A call on a handle that is not there changes nothing. -/
theorem noHandle (m : Mirrors d root name opened seen files memory) (hcall : c.handle? = some h)
    (hopened : opened ≤ h) :
    Mirrors d root name opened (seen ++ [(c, .noHandle)]) files memory := by
  have hcreated : ∀ h', created h' (seen ++ [(c, .noHandle)]) = created h' seen := by
    intro h'
    by_cases hh : h' = h
    · subst hh
      have hnone : created h' [(c, .noHandle)] = [] := by cases c <;> rfl
      rw [created_concat, hnone, List.append_nil]
    · exact created_of_ne (by simp [hcall, Ne.symm hh])
  have hdropped : ∀ h', Dropped h' (seen ++ [(c, .noHandle)]) → Dropped h' seen := by
    intro h' hnew
    rcases dropped_concat.mp hnew with ⟨-, hdone⟩ | ⟨-, hold⟩
    · cases hdone
    · exact hold
  refine { m with sees := ?_, unseen := ?_ }
  · intro h' t ht
    rw [hcreated]
    exact (m.sees h' t ht).mono (.refl _) (hdropped h')
  · intro h' hh
    rw [hcreated]
    exact ⟨(m.unseen h' hh).1, fun hnew => (m.unseen h' hh).2 (hdropped h' hnew)⟩

/-- A call on a handle leaves what the others keep a part of the rows. -/
theorem put {table : MemoryTable} {disk : Disk} {t' : FileTable}
    (m : Mirrors d root name opened seen files memory) (ht : files.handles[h]? = some t)
    (hcall : c.handle? = some h)
    (hlaid : Laid disk root name table.rows) (hall : memory.table.rows.Sublist table.rows)
    (hnumbered : table.Numbered)
    (hsees : Sees root name table.rows (created h (seen ++ [(c, a)])) (Dropped h (seen ++ [(c, a)]))
      t') :
    Mirrors d root name opened (seen ++ [(c, a)])
      { files with disk, handles := files.handles.set h t' } { memory with table } where
  root_eq := m.root_eq
  name_eq := m.name_eq
  handles_length := (List.length_set ..).trans m.handles_length
  count_eq := m.count_eq
  numbered := hnumbered
  disk := .inr hlaid
  sees h' u hu := by
    have hlt := m.lt_of_handle ht
    by_cases hh : h = h'
    · subst hh
      rw [List.getElem?_set_self (m.handles_length ▸ hlt)] at hu
      cases hu
      exact hsees
    · rw [List.getElem?_set_ne hh] at hu
      have hother : c.handle? ≠ some h' := by simp [hcall, hh]
      rw [created_of_ne hother]
      exact (m.sees h' u hu).mono hall (dropped_of_ne hother)
  unseen h' hh' := by
    have hlt := m.lt_of_handle ht
    have hother : c.handle? ≠ some h' := by
      rw [hcall]
      intro hsame
      cases hsame
      omega
    rw [created_of_ne hother]
    exact ⟨(m.unseen h' hh').1, fun hnew => (m.unseen h' hh').2 (dropped_of_ne hother hnew)⟩

/-! ### One call -/

theorem openNew (m : Mirrors d root name opened seen files memory) (habsent : Absent d root name) :
    ∃ files', TableClones.openNew files = (.ok (), files') ∧
      Mirrors d root name (opened + 1) (seen ++ [(.openNew, .done)]) files'
        { memory with count := memory.count + 1 } := by
  obtain ⟨disk, notices, hopen, hlaid⟩ : ∃ disk notices,
      openAt files.disk root name =
        ⟨.ok ⟨name, file root name, some memory.table.rows⟩, disk, notices⟩ ∧
      Laid disk root name memory.table.rows := by
    rcases m.disk with ⟨-, hdisk, hrows⟩ | hlaid
    · obtain ⟨disk, hopen, hlaid⟩ := habsent.openAt
      rw [hdisk, hrows]
      exact ⟨disk, _, hopen, hlaid⟩
    · exact ⟨_, _, hlaid.openAt, hlaid⟩
  have hcreated : ∀ h, created h (seen ++ [(.openNew, .done)]) = created h seen :=
    fun h => created_of_ne (by simp [TableCall.handle?])
  have hdropped : ∀ h, Dropped h (seen ++ [(.openNew, .done)]) → Dropped h seen :=
    fun h => dropped_of_ne (by simp [TableCall.handle?])
  refine ⟨{ files with
    disk, handles := files.handles ++ [⟨name, file root name, some memory.table.rows⟩] }, ?_, ?_⟩
  · simp only [TableClones.openNew, m.root_eq, m.name_eq, hopen]
  · refine ⟨m.root_eq, m.name_eq, by simp [m.handles_length], by simp [m.count_eq], m.numbered,
      .inr hlaid, ?_, ?_⟩
    · intro h t ht
      rw [hcreated]
      rw [List.getElem?_append] at ht
      split at ht
      · exact (m.sees h t ht).mono (.refl _) (hdropped h)
      · next hnew =>
          -- the new handle, of which nothing has been asked yet
          obtain rfl := List.mem_singleton.mp (List.mem_of_getElem? ht)
          obtain ⟨hnone, hnot⟩ := m.unseen h (by have := m.handles_length; omega)
          refine ⟨rfl, rfl, by simp [hnone], ?_⟩
          intro kept hkept
          cases hkept
          exact ⟨.refl _, by simp [hnone], fun hnew => hnot (hdropped h hnew)⟩
    · intro h hh
      rw [hcreated]
      obtain ⟨hnone, hnot⟩ := m.unseen h (by omega)
      exact ⟨hnone, fun hnew => hnot (hdropped h hnew)⟩

theorem create (m : Mirrors d root name opened seen files memory) (ht : files.handles[h]? = some t)
    {e : Entry} (hfits : Log.Fits (memory.table.nextKey, e)) :
    ∃ disk t', FileOnDisk.create e ⟨files.disk, t⟩ = (.ok memory.table.nextKey, ⟨disk, t'⟩) ∧
      Mirrors d root name opened (seen ++ [(.create h e, .key memory.table.nextKey)])
        { files with disk, handles := files.handles.set h t' }
        { memory with table := (memory.table.create e).2 } := by
  have hlt := m.lt_of_handle ht
  have hsees := m.sees h t ht
  have hkey : Log.nextKey memory.table.rows = memory.table.nextKey :=
    Log.nextKey_of_range m.numbered
  have hlaid := m.laid (Nat.zero_lt_of_lt hlt)
  rw [← hkey] at hfits
  obtain ⟨disk, hrow, hnew⟩ := hlaid.exists_createRow hsees.name_eq hsees.path_eq hfits
  rw [hkey] at hrow hnew
  have hrows := m.numbered.rows_create e
  have hown : created h (seen ++ [(.create h e, .key memory.table.nextKey)]) =
      created h seen ++ [(memory.table.nextKey, e)] := by
    rw [created_concat]
    simp [created]
  refine ⟨disk, { t with kept := t.kept.map (· ++ [(memory.table.nextKey, e)]) }, ?_, ?_⟩
  · unfold FileOnDisk.create
    rw [hrow]
  · apply m.put ht rfl
    · rw [hrows]
      exact hnew
    · rw [hrows]
      exact List.sublist_append_left _ _
    · exact m.numbered.create e
    · rw [hown, hrows]
      refine ⟨hsees.name_eq, hsees.path_eq, ?_, ?_⟩
      · exact List.append_subset.mpr
          ⟨List.subset_append_of_subset_left _ hsees.own_subset, List.subset_append_right _ _⟩
      · intro kept hkept
        obtain ⟨old, hold, rfl⟩ := Option.map_eq_some_iff.mp hkept
        obtain ⟨hpart, hown, hnot⟩ := hsees.kept old hold
        refine ⟨hpart.append (.refl _), ?_, ?_⟩
        · exact List.append_subset.mpr
            ⟨List.subset_append_of_subset_left _ hown, List.subset_append_right _ _⟩
        · intro hdropped
          rcases dropped_concat.mp hdropped with ⟨hcall, -⟩ | ⟨-, hdropped⟩
          · cases hcall
          · exact hnot hdropped

/-- What a handle lists: all rows, if they are read from the file. -/
theorem rows_eq (m : Mirrors d root name opened seen files memory)
    (ht : files.handles[h]? = some t) :
    ∃ rows, t.rows files.disk = .ok rows ∧ rows.Sublist memory.table.rows ∧
      created h seen ⊆ rows ∧ (Dropped h seen → rows = memory.table.rows) := by
  have hsees := m.sees h t ht
  unfold FileTable.rows
  cases hkept : t.kept with
  | some kept =>
      obtain ⟨hpart, hown, hnot⟩ := hsees.kept kept hkept
      exact ⟨kept, rfl, hpart, hown, fun hdropped => absurd hdropped hnot⟩
  | none =>
      refine ⟨memory.table.rows, ?_, .refl _, hsees.own_subset, fun _ => rfl⟩
      dsimp only
      rw [hsees.name_eq, hsees.path_eq]
      exact (m.laid (Nat.zero_lt_of_lt (m.lt_of_handle ht))).read

theorem rows (m : Mirrors d root name opened seen files memory) (ht : files.handles[h]? = some t)
    {rows : List Row} (hpart : rows.Sublist memory.table.rows) (hown : created h seen ⊆ rows) :
    Mirrors d root name opened (seen ++ [(.rows h, .rows rows)])
      { files with handles := files.handles.set h { t with kept := some rows } } memory := by
  have hsees := m.sees h t ht
  have hcreated : created h (seen ++ [(.rows h, .rows rows)]) = created h seen := by
    rw [created_concat]
    simp [created]
  apply m.put ht rfl (m.laid (Nat.zero_lt_of_lt (m.lt_of_handle ht))) (.refl _) m.numbered
  rw [hcreated]
  refine ⟨hsees.name_eq, hsees.path_eq, hsees.own_subset, ?_⟩
  intro kept hkept
  cases hkept
  refine ⟨hpart, hown, ?_⟩
  intro hdropped
  rcases dropped_concat.mp hdropped with ⟨hcall, -⟩ | ⟨hcall, -⟩
  · cases hcall
  · exact hcall rfl

theorem invalidate (m : Mirrors d root name opened seen files memory)
    (ht : files.handles[h]? = some t) :
    Mirrors d root name opened (seen ++ [(.invalidate h, .done)])
      { files with handles := files.handles.set h t.invalidate }
      { memory with table := memory.table.invalidate } := by
  have hsees := m.sees h t ht
  have hcreated : created h (seen ++ [(.invalidate h, .done)]) = created h seen := by
    rw [created_concat]
    simp [created]
  have hlaid : Laid files.disk root name memory.table.invalidate.rows :=
    m.laid (Nat.zero_lt_of_lt (m.lt_of_handle ht))
  apply m.put ht rfl hlaid (.refl _) m.numbered
  rw [hcreated]
  exact ⟨hsees.name_eq, hsees.path_eq, hsees.own_subset, fun kept hkept => by cases hkept⟩

end Mirrors

open TableClones

variable {d : Disk} {root name : String} {opened : Nat} {seen : TableTrace} {files : FileHandles}
  {memory : MemoryClones} {h : Nat} {c : TableCall}

theorem use_noHandle {σ τ : Type} [EntryTable τ] [TableClones σ τ] {s : σ}
    (hcall : c.handle? = some h) (hnone : handle? s h = none) : step s c = (.noHandle, s) := by
  cases c <;> cases hcall <;> simp only [step, use, hnone]

/-- **One call:** the answers agree, and the states go on mirroring each other. -/
theorem mirrors_step (m : Mirrors d root name opened seen files memory)
    (habsent : Absent d root name) (hfits : ∀ row ∈ (step memory c).2.table.rows, Log.Fits row) :
    Agrees seen opened c (step files c).1 (step memory c).1 ∧
      Mirrors d root name (opened + [c].count .openNew) (seen ++ [(c, (step files c).1)])
        (step files c).2 (step memory c).2 := by
  cases hcall : c.handle? with
  | none =>
      obtain rfl : c = .openNew := by cases c <;> first | rfl | cases hcall
      obtain ⟨files', hopen, hnext⟩ := m.openNew habsent
      have hfiles : step files .openNew = (.done, files') := by
        simp only [step, hopen, TableAnswer.ofOpening]
      rw [hfiles]
      exact ⟨.opened, hnext⟩
  | some h =>
      cases ht : files.handles[h]? with
      | none =>
          have hopened : opened ≤ h := m.handles_length ▸ List.getElem?_eq_none_iff.mp ht
          have hfiles : step files c = (.noHandle, files) :=
            use_noHandle hcall (by simp [handle?, ht])
          have hmemory : step memory c = (.noHandle, memory) :=
            use_noHandle hcall (by simp [handle?, m.count_eq, hopened])
          have hcount : [c].count .openNew = 0 := by cases c <;> cases hcall <;> rfl
          rw [hfiles, hmemory, hcount]
          exact ⟨.noHandle hcall hopened, m.noHandle hcall hopened⟩
      | some t =>
          have hlt := m.lt_of_handle ht
          have hfile : handle? files h = some ⟨files.disk, t⟩ := by simp [handle?, ht]
          have hclone : handle? memory h = some memory.table := by simp [handle?, m.count_eq, hlt]
          cases c with
          | openNew => cases hcall
          | create h' e =>
              cases hcall
              have hmemory : step memory (.create h e) =
                  (.key memory.table.nextKey,
                    { memory with table := (memory.table.create e).2 }) := by
                simp only [step, use, hclone]
                rfl
              rw [hmemory] at hfits ⊢
              have hnew : Log.Fits (memory.table.nextKey, e) := by
                apply hfits
                rw [m.numbered.rows_create e]
                simp
              obtain ⟨disk, t', hcreate, hnext⟩ := m.create ht hnew
              have hfiles : step files (.create h e) = (.key memory.table.nextKey,
                  { files with disk, handles := files.handles.set h t' }) := by
                simp only [step, use, hfile, EntryTable.create, hcreate]
                rfl
              rw [hfiles]
              exact ⟨.created e _ hlt, hnext⟩
          | rows h' =>
              cases hcall
              obtain ⟨rows, hrows, hpart, hown, hwhole⟩ := m.rows_eq ht
              have hfiles : step files (.rows h) = (.rows rows,
                  { files with handles := files.handles.set h { t with kept := some rows } }) := by
                simp only [step, use, hfile, EntryTable.rows, FileOnDisk.rows, hrows]
                rfl
              have hmemory : step memory (.rows h) = (.rows memory.table.rows, memory) := by
                simp only [step, use, hclone]
                rfl
              rw [hfiles, hmemory]
              exact ⟨.listed hlt hpart (m.numbered.increasing.sublist hpart) hown hwhole,
                m.rows ht hpart hown⟩
          | invalidate h' =>
              cases hcall
              have hfiles : step files (.invalidate h) = (.done,
                  { files with handles := files.handles.set h t.invalidate }) := by
                simp only [step, use, hfile]
                rfl
              have hmemory : step memory (.invalidate h) = (.done,
                  { memory with table := memory.table.invalidate }) := by
                simp only [step, use, hclone]
                rfl
              rw [hfiles, hmemory]
              exact ⟨.invalidated hlt, m.invalidate ht⟩

/-! ## Whole runs -/

/-- The rows of a table in memory only become more. -/
theorem numbered_step (hm : memory.table.Numbered) (c : TableCall) :
    (step memory c).2.table.Numbered ∧ memory.table.rows ⊆ (step memory c).2.table.rows := by
  have huse : ∀ h act, (∀ t : MemoryTable, t.Numbered →
      (act t).2.Numbered ∧ t.rows ⊆ (act t).2.rows) →
      (use memory h act).2.table.Numbered ∧
        memory.table.rows ⊆ (use memory h act).2.table.rows := by
    intro h act hact
    by_cases hlt : h < memory.count
    · simpa [use, handle?, put, hlt] using hact memory.table hm
    · simpa [use, handle?, hlt] using hm
  cases c with
  | openNew => exact ⟨hm, fun _ hrow => hrow⟩
  | create h e =>
      apply huse
      intro t ht
      refine ⟨ht.create e, ?_⟩
      rw [show (EntryTable.create e t).2 = (t.create e).2 from rfl, ht.rows_create e]
      exact List.subset_append_left _ _
  | rows h => exact huse h _ fun t ht => ⟨ht, fun _ hrow => hrow⟩
  | invalidate h => exact huse h _ fun t ht => ⟨ht, fun _ hrow => hrow⟩

theorem numbered_after (name : String) (calls : List TableCall) :
    (after (⟨{ name }, 0⟩ : MemoryClones) calls).table.Numbered := by
  induction calls using List.reverseRecOn with
  | nil => rfl
  | append_singleton calls c ih =>
      rw [after_concat]
      exact (numbered_step ih c).1

theorem mirrors_after (habsent : Absent d root name) {calls : List TableCall}
    (hfits : ∀ row ∈ (after (⟨{ name }, 0⟩ : MemoryClones) calls).table.rows, Log.Fits row) :
    Mirrors d root name (calls.count .openNew) (trace (⟨root, name, d, []⟩ : FileHandles) calls)
      (after ⟨root, name, d, []⟩ calls) (after ⟨{ name }, 0⟩ calls) := by
  induction calls using List.reverseRecOn with
  | nil => exact .start d root name
  | append_singleton calls c ih =>
      rw [after_concat] at hfits
      have hsubset := (numbered_step (numbered_after name calls) c).2
      have m := ih fun row hrow => hfits row (hsubset hrow)
      rw [List.count_append, trace_concat, after_concat, after_concat]
      exact (mirrors_step m habsent hfits).2

/-- **The handles of a table file answer like clones of a table in memory.** From a table that is
not there yet, after any calls on any number of handles, the answer to a next call agrees with the
answer that a clone gives after the same calls, as long as all rows that are created fit. -/
theorem answer_agrees (habsent : Absent d root name) (calls : List TableCall) (c : TableCall)
    (hfits : ∀ row ∈ (after (⟨{ name }, 0⟩ : MemoryClones) (calls ++ [c])).table.rows,
      Log.Fits row) :
    Agrees (trace (⟨root, name, d, []⟩ : FileHandles) calls) (calls.count .openNew) c
      (step (after (⟨root, name, d, []⟩ : FileHandles) calls) c).1
      (step (after (⟨{ name }, 0⟩ : MemoryClones) calls) c).1 := by
  rw [after_concat] at hfits
  have hsubset := (numbered_step (numbered_after name calls) c).2
  have m := mirrors_after habsent fun row hrow => hfits row (hsubset hrow)
  exact (mirrors_step m habsent hfits).1

/-- Two handles create a row each. -/
def twoWriters : List TableCall :=
  [.openNew, .openNew, .create 0 (.unbound "ram"), .create 1 (.unbound "io")]

theorem absent_empty : Absent {} "data" "spaces" :=
  ⟨_, _, rfl, rfl, rfl⟩

theorem fits_twoWriters {rows : List Row} (h : rows = [(0, .unbound "ram"), (1, .unbound "io")]) :
    ∀ row ∈ rows, Log.Fits row := by
  rw [h]
  intro row hrow
  simp only [List.mem_cons, List.not_mem_nil, or_false] at hrow
  rcases hrow with rfl | rfl <;> exact ⟨by decide, by decide⟩

/-- The first handle lists the row of the second once it has dropped what it kept. -/
theorem answer_agrees_dropped :
    (step (after (⟨"data", "spaces", {}, []⟩ : FileHandles) (twoWriters ++ [.invalidate 0]))
      (.rows 0)).1 = .rows [(0, .unbound "ram"), (1, .unbound "io")] := by
  have hdone : (step (after (⟨"data", "spaces", {}, []⟩ : FileHandles) twoWriters)
      (.invalidate 0)).1 = .done := by
    have hagrees := answer_agrees absent_empty twoWriters (.invalidate 0)
    have hagrees := hagrees (fits_twoWriters (by decide))
    have hmemory : (step (after (⟨{ name := "spaces" }, 0⟩ : MemoryClones) twoWriters)
        (.invalidate 0)).1 = .done := by decide
    rw [hmemory] at hagrees
    revert hagrees
    generalize (step (after (⟨"data", "spaces", {}, []⟩ : FileHandles) twoWriters)
      (.invalidate 0)).1 = answer
    intro hagrees
    cases hagrees
    rfl
  have hagrees := answer_agrees absent_empty (twoWriters ++ [.invalidate 0]) (.rows 0)
  have hagrees := hagrees (fits_twoWriters (by decide))
  have hmemory : (step (after (⟨{ name := "spaces" }, 0⟩ : MemoryClones)
      (twoWriters ++ [.invalidate 0])) (.rows 0)).1 =
        .rows [(0, .unbound "ram"), (1, .unbound "io")] := by decide
  rw [hmemory, trace_concat, hdone] at hagrees
  revert hagrees
  generalize (step (after (⟨"data", "spaces", {}, []⟩ : FileHandles)
    (twoWriters ++ [.invalidate 0])) (.rows 0)).1 = answer
  intro hagrees
  cases hagrees with
  | listed _ _ _ _ hwhole => rw [hwhole (dropped_concat.mpr (.inl ⟨rfl, rfl⟩))]

end TraceAtlas
