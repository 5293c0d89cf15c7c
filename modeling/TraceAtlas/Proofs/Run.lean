import TraceAtlas.Proofs.Lookup
import TraceAtlas.Proofs.Reload

/-!
# Runs

A run is a sequence of calls to one registry. In a run among `others`, anybody may put another
table and other surroundings in place between two calls.

What a run preserves is proved call by call: `Stable.ask` for lookups, and for loads
`loadRows_preserves` with the five ways in which a row can be loaded. `perform_preserves` puts them
together where all that matters of a load is which rows it reads.
-/

namespace TraceAtlas

inductive Call where
  | ask (q : Query) (create : Bool)
  | load
  | invalidate
deriving DecidableEq, Repr

/-- What happens to a registry: a call, or others change the table and the surroundings. -/
inductive Event (σ : Type) where
  | call (call : Call)
  | others (table : σ) (trace : Trace)

namespace Atlas

variable {σ : Type}

section Runs

variable [EntryTable σ]

/-- The atlas after a call, whatever its answer. -/
def perform (a : Atlas σ) : Call → Atlas σ
  | .ask q create => (a.ask q create).2
  | .load => a.load.2
  | .invalidate => a.invalidate.2

def run (a : Atlas σ) (calls : List Call) : Atlas σ := calls.foldl perform a

def step (a : Atlas σ) : Event σ → Atlas σ
  | .call call => a.perform call
  | .others table trace => { a with table, trace }

def runAmong (a : Atlas σ) (events : List (Event σ)) : Atlas σ := events.foldl step a

variable {P : Atlas σ → Prop} {a : Atlas σ}

theorem run_preserves {calls : List Call}
    (call : ∀ {a c}, c ∈ calls → P a → P (a.perform c)) (ha : P a) : P (a.run calls) := by
  unfold run
  induction calls generalizing a with
  | nil => exact ha
  | cons c calls ih =>
      have hc : P (a.perform c) := call List.mem_cons_self ha
      exact ih (fun hmem => call (List.mem_cons_of_mem c hmem)) hc

theorem runAmong_preserves {events : List (Event σ)}
    (step : ∀ {a e}, e ∈ events → P a → P (a.step e)) (ha : P a) : P (a.runAmong events) := by
  unfold runAmong
  induction events generalizing a with
  | nil => exact ha
  | cons e events ih =>
      have he : P (a.step e) := step List.mem_cons_self ha
      exact ih (fun hmem => step (List.mem_cons_of_mem e hmem)) he

/-- `ok` holds of every event of a run, for the atlas as the event finds it. -/
def Throughout (ok : Atlas σ → Event σ → Prop) (a : Atlas σ) : List (Event σ) → Prop
  | [] => True
  | e :: events => ok a e ∧ (a.step e).Throughout ok events

instance decidableThroughout {ok : Atlas σ → Event σ → Prop} [∀ a e, Decidable (ok a e)]
    (a : Atlas σ) : (events : List (Event σ)) → Decidable (a.Throughout ok events)
  | [] => isTrue trivial
  | e :: events =>
    haveI : Decidable ((a.step e).Throughout ok events) := decidableThroughout _ events
    inferInstanceAs (Decidable (ok a e ∧ _))

theorem Throughout.preserves {ok : Atlas σ → Event σ → Prop} {events : List (Event σ)}
    (h : a.Throughout ok events) (step : ∀ {a e}, ok a e → P a → P (a.step e)) (ha : P a) :
    P (a.runAmong events) := by
  unfold runAmong
  induction events generalizing a with
  | nil => exact ha
  | cons e events ih =>
      obtain ⟨he, hevents⟩ := h
      exact ih hevents (step he ha)

/-- The rows that a call reads, if it reads any. -/
def readBy? (a : Atlas σ) : Call → Option (List Row)
  | .ask _ _ => none
  | .load => (EntryTable.rows a.table).1.toOption
  | .invalidate => (EntryTable.rows (EntryTable.invalidate a.table)).1.toOption

theorem mem_readBy?_load {rows : List Row} (read : (EntryTable.rows a.table).1 = .ok rows) :
    rows ∈ a.readBy? .load := by
  unfold readBy?
  rw [read]
  rfl

theorem mem_readBy?_invalidate {rows : List Row}
    (read : (EntryTable.rows (EntryTable.invalidate a.table)).1 = .ok rows) :
    rows ∈ a.readBy? .invalidate := by
  unfold readBy?
  rw [read]
  rfl

/-- A registry that has not been loaded yet. -/
def unloaded (settings : Settings) (table : σ) (trace : Trace) : Atlas σ :=
  ⟨⟨settings, {}, .empty, []⟩, table, trace⟩

/-- What a registry does before any other event: an eager one is loaded. -/
def opening (settings : Settings) : List (Event σ) := if settings.eager then [.call .load] else []

theorem runAmong_start (settings : Settings) (table : σ) (trace : Trace)
    (events : List (Event σ)) : (start settings table trace).2.runAmong events =
      (unloaded settings table trace).runAmong (opening settings ++ events) := by
  unfold start opening
  dsimp only
  split <;> rfl

end Runs

/-! ## Loads, refused or not -/

variable {P : Atlas σ → Prop} {a : Atlas σ} {rows : List Row}

/-- What loading any one of the rows preserves, loading them preserves. -/
theorem loadRows_preserves
    (row : ∀ {a b key entry r}, (key, entry) ∈ rows → RowLoaded a key entry r b → P a → P b)
    (ha : P a) : P (a.loadRows rows).2 := by
  induction rows generalizing a with
  | nil => exact ha
  | cons kv rows ih =>
      obtain ⟨key, entry⟩ := kv
      have hspec := loadRow_spec a key entry
      unfold loadRows
      revert hspec
      generalize a.loadRow key entry = answer
      obtain ⟨r, b⟩ := answer
      intro hspec
      have hb : P b := row List.mem_cons_self hspec ha
      cases r with
      | error e => exact hb
      | ok placed =>
          -- what the rest answers does not matter, only what it leaves
          have hc := ih (fun hmem => row (List.mem_cons_of_mem _ hmem)) hb
          dsimp only
          revert hc
          generalize b.loadRows rows = answer
          obtain ⟨r, c⟩ := answer
          intro hc
          cases r <;> exact hc

theorem fill_preserves
    (row : ∀ {a b key entry r}, (key, entry) ∈ rows → RowLoaded a key entry r b → P a → P b)
    (keep : ∀ {a} keys, P a → P (a.withCaches (a.caches.keepBindings keys))) (ha : P a) :
    P (a.fill rows).2 := by
  have hrows := loadRows_preserves row ha
  unfold fill
  revert hrows
  generalize a.loadRows rows = answer
  obtain ⟨r, b⟩ := answer
  intro hrows
  cases r with
  | error e => exact hrows
  | ok keys => exact keep keys hrows

variable [EntryTable σ]

/-- What is preserved by reading the table, by idle steps, by loading one of the rows that were read
and by dropping bindings is preserved by loading the table. -/
theorem loadTable_preserves (idle : ∀ {a b}, Idle a b → P a → P b)
    (table : ∀ {a} table, P a → P { a with table })
    (row : ∀ rows, (EntryTable.rows a.table).1 = .ok rows →
      ∀ {a b key entry r}, (key, entry) ∈ rows → RowLoaded a key entry r b → P a → P b)
    (keep : ∀ {a} keys, P a → P (a.withCaches (a.caches.keepBindings keys))) (ha : P a) :
    P a.loadTable.2 := by
  rcases hread : EntryTable.rows a.table with ⟨read, t⟩
  have hb : P ({ a with table := t }.settle (EntryTable.name t) read).2 :=
    idle (idle_settle _ _ _) (table t ha)
  have hok : ∀ rows, ({ a with table := t }.settle (EntryTable.name t) read).1 = .ok (some rows) →
      read = .ok rows := fun rows => settle_fst_eq_ok_some_iff.mp
  unfold loadTable readRows
  simp only [hread]
  revert hb hok
  generalize { a with table := t }.settle (EntryTable.name t) read = answer
  obtain ⟨r, b⟩ := answer
  intro hb hok
  rcases r with e | _ | rows
  · exact hb
  · exact hb
  · have hrows : (EntryTable.rows a.table).1 = .ok rows := by rw [hread, hok rows rfl]
    exact fill_preserves (row rows hrows) keep hb

/-- What idle steps preserve, and sub-spaces that forget, a reload preserves if its load does. -/
theorem invalidate_preserves (idle : ∀ {a b}, Idle a b → P a → P b)
    (forget : ∀ {a}, P a → P a.forgetAll) (ha : P a.clear.loadTable.2) : P a.invalidate.2 := by
  unfold invalidate
  revert ha
  generalize a.clear.loadTable = answer
  obtain ⟨r, b⟩ := answer
  intro hb
  cases r with
  | error e => exact idle (idle_report b) hb
  | ok u => exact idle (idle_report b.forgetAll) (forget hb)

/-- What lookups preserve, and loads of tables with rows that are `ok`, a call preserves if all the
rows that it reads are `ok`. -/
theorem perform_preserves {ok : Atlas σ → Row → Prop} {c : Call}
    (idle : ∀ {a b}, Idle a b → P a → P b) (stable : ∀ q create, Stable q create P)
    (load : ∀ {b}, P b → (∀ rows, (EntryTable.rows b.table).1 = .ok rows → ∀ row ∈ rows, ok b row) →
      P b.loadTable.2)
    (clear : P a → P a.clear) (clear_ok : ∀ row, ok a row → ok a.clear row)
    (forget : ∀ {a}, P a → P a.forgetAll)
    (read : ∀ rows ∈ a.readBy? c, ∀ row ∈ rows, ok a row) (ha : P a) : P (a.perform c) := by
  cases c with
  | ask q create => exact (stable q create).ask ha
  | load =>
      refine idle (idle_report a.loadTable.2) (load ha ?_)
      exact fun rows hrows => read rows (mem_readBy?_load hrows)
  | invalidate =>
      refine invalidate_preserves idle forget (load (clear ha) ?_)
      intro rows hrows row hrow
      exact clear_ok row (read rows (mem_readBy?_invalidate hrows) row hrow)

/-! ## No load changes the surroundings -/

theorem sameWorld_loadTable (a : Atlas σ) : SameWorld a a.loadTable.2 := by
  refine loadTable_preserves (P := SameWorld a) ?_ ?_ ?_ ?_ (.refl a)
  · intro b c hidle hb
    exact hb.trans hidle.toSameWorld
  · intro b table hb
    exact ⟨hb.settings, hb.contexts, hb.schema, hb.nodes, hb.directory⟩
  · intro rows _ b c key entry r _ hrow hb
    exact hb.trans hrow.kept.toSameWorld
  · intro b keys hb
    exact hb.trans (sameWorld_withCaches b _)

/-- What a load preserves may be shown with the surroundings as they were before the load. -/
theorem loadTable_preserves_within (idle : ∀ {b c}, Idle b c → P b → P c)
    (table : ∀ {b} table, P b → P { b with table })
    (row : ∀ rows, (EntryTable.rows a.table).1 = .ok rows →
      ∀ {b c key entry r}, (key, entry) ∈ rows → SameWorld a b → RowLoaded b key entry r c →
        P b → P c)
    (keep : ∀ {b} keys, P b → P (b.withCaches (b.caches.keepBindings keys))) (ha : P a) :
    P a.loadTable.2 := by
  have hload : SameWorld a a.loadTable.2 ∧ P a.loadTable.2 := by
    refine loadTable_preserves (P := fun b => SameWorld a b ∧ P b) ?_ ?_ ?_ ?_ ⟨.refl a, ha⟩
    · intro b c hidle hb
      exact ⟨hb.1.trans hidle.toSameWorld, idle hidle hb.2⟩
    · intro b t hb
      exact ⟨⟨hb.1.settings, hb.1.contexts, hb.1.schema, hb.1.nodes, hb.1.directory⟩, table t hb.2⟩
    · intro rows hrows b c key entry r hmem hrow hb
      exact ⟨hb.1.trans hrow.kept.toSameWorld, row rows hrows hmem hb.1 hrow hb.2⟩
    · intro b keys hb
      exact ⟨hb.1.trans (sameWorld_withCaches b _), keep keys hb.2⟩
  exact hload.2

theorem byObject_loadTable (a : Atlas σ) :
    a.loadTable.2.registry.byObject = a.registry.byObject := by
  apply loadTable_preserves (P := fun b => b.registry.byObject = a.registry.byObject)
  · intro b c hidle hb
    exact hidle.byObject.trans hb
  · intro b table hb
    exact hb
  · intro rows _ b c key entry r _ hrow hb
    exact hrow.kept.byObject.trans hb
  · intro b keys hb
    exact hb
  · rfl

theorem byObject_load (a : Atlas σ) : a.load.2.registry.byObject = a.registry.byObject :=
  (idle_report _).byObject.trans (byObject_loadTable a)

theorem sameWorld_load (a : Atlas σ) : SameWorld a a.load.2 :=
  (sameWorld_loadTable a).trans (idle_report _).toSameWorld

theorem sameWorld_invalidate (a : Atlas σ) : SameWorld a a.invalidate.2 := by
  apply invalidate_preserves (P := SameWorld a)
  · intro b c hidle hb
    exact hb.trans hidle.toSameWorld
  · intro b hb
    exact hb.trans (sameWorld_forgetAll b)
  · exact (sameWorld_clear a).trans (sameWorld_loadTable a.clear)

/-- A reload, even one that fails, leaves nothing that was found through objects. -/
theorem byObject_invalidate (a : Atlas σ) : a.invalidate.2.registry.byObject = .empty := by
  apply invalidate_preserves (P := fun b => b.registry.byObject = .empty)
  · intro b c hidle hb
    exact hidle.byObject.trans hb
  · intro b hb
    exact hb
  · exact byObject_loadTable a.clear

end Atlas
end TraceAtlas
