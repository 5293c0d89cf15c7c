import TraceAtlas.Proofs.FileTable
import TraceAtlas.Proofs.Peek

/-!
# Restarting a registry

A second registry that is made eager on a table with the same rows fills its slots from these rows
alone. `Restored` says that it cannot be told from the first: lookups that create nothing get
answers from both that differ in nothing but the serial numbers of the sub-spaces.

The load builds every sub-space anew, for the target that the row's entry leads to, and in the
first registry that is the target which the row was created for.
-/

namespace TraceAtlas

/-- All that can be told of a sub-space but its serial number. -/
def SubSpace.likeness (x : SubSpace) : AddressSpace × Option Int64 × Slot :=
    (x.space, x.context, x.slot)

namespace Atlas

variable {σ : Type} [EntryTable σ] {a b : Atlas σ}

/-- The answers to lookups that are made one after the other and create nothing. -/
def answers (a : Atlas σ) : List Query → List (Except SpaceError (Option SubSpace))
  | [] => []
  | q :: qs => (a.ask q false).1 :: (a.ask q false).2.answers qs

/-- A second registry with the settings and surroundings of the first, loaded at once from
`table`. -/
def restart (a : Atlas σ) (table : σ) : Answer σ Unit :=
  start { a.settings with eager := true } table a.trace

/-- The second registry on `table` comes into being, sees the same rows, and answers as `a` does. -/
structure Restored (a : Atlas σ) (table : σ) : Prop where
  done : (a.restart table).1 = .ok ()
  rows : (EntryTable.rows (a.restart table).2.table).1 = (EntryTable.rows a.table).1
  answers : ∀ qs : List Query, (∀ q ∈ qs, q.Native a.trace.objects) →
    ((a.restart table).2.answers qs).map (Except.map (Option.map SubSpace.likeness)) =
      (a.answers qs).map (Except.map (Option.map SubSpace.likeness))

/-! ## Peers stay peers -/

omit [EntryTable σ] in
theorem Peers.of_unmoved {γ : Type} {f : SubSpace → γ} {a' b' : Atlas σ} (h : Peers f a b)
    (ha : Unmoved a a') (hb : Unmoved b b') : Peers f a' b' where
  knowsContexts := by rw [hb.world.settings, ha.world.settings]; exact h.knowsContexts
  knowsObjects := by rw [hb.world.settings, ha.world.settings]; exact h.knowsObjects
  contexts := by rw [hb.world.contexts, ha.world.contexts]; exact h.contexts
  schema := by rw [hb.world.schema, ha.world.schema]; exact h.schema
  nodes := by rw [hb.world.nodes, ha.world.nodes]; exact h.nodes
  directory := by rw [hb.world.directory, h.directory, ha.world.directory]
  slots p := by rw [hb.slots, ha.slots]; exact h.slots p

/-- Peers that keep the right things for objects answer alike, lookup for lookup. -/
theorem Peers.answers {γ : Type} {f : SubSpace → γ} (h : Peers f a b) (ha : a.Mindful)
    (hb : b.Mindful) {qs : List Query} (native : ∀ q ∈ qs, q.Native a.trace.objects) :
    (b.answers qs).map (Except.map (Option.map f)) =
      (a.answers qs).map (Except.map (Option.map f)) := by
  induction qs generalizing a b with
  | nil => rfl
  | cons q qs ih =>
      obtain ⟨hq, hqs⟩ := List.forall_mem_cons.mp native
      have hqb : q.Native b.trace.objects := fun object hobject =>
        (ObjectTree.has_congr h.nodes object).mpr (hq object hobject)
      have hua := ask_false_unmoved ha hq
      have hub := ask_false_unmoved hb hqb
      have hhead : Alike f (b.ask q false).1 (a.ask q false).1 := by
        rw [ask_false_fst ha hq, ask_false_fst hb hqb]
        exact h.peek q
      have htail := ih (h.of_unmoved hua hub) hua.mindful hub.mindful fun q' hq' object hobject =>
        (ObjectTree.has_congr hua.world.nodes object).mpr (hqs q' hq' object hobject)
      simp only [Atlas.answers, List.map_cons]
      rw [htail, show Except.map (Option.map f) (b.ask q false).1 = _ from hhead]

/-! ## What the second registry places -/

variable {rows : List Row} {s : Atlas σ}

omit [EntryTable σ] in
/-- A registry that knows nothing builds for every row what the first has built for it. -/
theorem Matched.placement?_anew (h : a.Matched rows)
    (contexts : s.settings.contexts = a.settings.contexts)
    (name : s.settings.name = a.settings.name) (trace : s.trace = a.trace) (caches : s.caches = {})
    (reliable : a.trace.factory.Reliable) (before : List Row) {row : Row} (hrow : row ∈ rows) :
    ∃ p x y, a.caches.at? p = some x ∧ x.row = row ∧ y.likeness = x.likeness ∧
      s.placement? before row = some ⟨p, ⟨row.1, row.2, y⟩⟩ := by
  obtain ⟨p, x, hx, rfl⟩ := h.filled row hrow
  obtain ⟨-, t, rfl, ht⟩ := h.home p x hx
  have htarget : s.target? x.slot.entry = some t := by
    rw [ht.entry_eq]
    refine target?_of_extends (a := a) contexts (by rw [trace]) ?_ ht.target
    rw [trace]
    exact .refl _
  have hunbound : s.caches.binding? x.slot.key x.slot.entry = none := by
    rw [caches]
    rfl
  have hfault : s.fault? before = none := by
    unfold fault?
    rw [trace]
    exact reliable _
  refine ⟨t.slot, x, s.subSpace (s.nextSerial before) t x.slot.key x.slot.entry, hx, rfl, ?_, ?_⟩
  · rw [subSpace_congr name, ht.entry_eq, SubSpace.likeness, SubSpace.likeness, ht.built]
    rfl
  · unfold placement?
    simp only [SubSpace.row, htarget, hunbound, hfault, Option.bind_some]

omit [EntryTable σ] in
/-- After its load the second registry has in every slot what the first has there. -/
theorem Matched.slots_anew (h : a.Matched rows)
    (hplace : ∀ before row, row ∈ rows → ∃ p x y, a.caches.at? p = some x ∧ x.row = row ∧
      y.likeness = x.likeness ∧ s.placement? before row = some ⟨p, ⟨row.1, row.2, y⟩⟩)
    (p : SlotKey) : ((({} : Caches).putAll (s.placements [] rows)).at? p).map SubSpace.likeness =
      (a.caches.at? p).map SubSpace.likeness := by
  rcases Caches.at?_putAll_cases {} (s.placements [] rows) p with ⟨q, hq, rfl, hat⟩ | ⟨hnone, hat⟩
  · obtain ⟨front, row, back, hrows, hp⟩ := mem_placements hq
    have hrow : row ∈ rows := by
      rw [hrows]
      simp
    obtain ⟨p, x, y, hx, -, hlike, hp'⟩ := hplace ([] ++ front) row hrow
    rw [hp'] at hp
    cases hp
    rw [hat, hx]
    exact congrArg some hlike
  · have hempty : a.caches.at? p = none := by
      cases hx : a.caches.at? p with
      | none => rfl
      | some x =>
          -- the row of `x` is placed in the slot of `x`
          obtain ⟨front, back, hrows⟩ := List.append_of_mem (h.home p x hx).1
          obtain ⟨p', x', y, hx', hrow, -, hp⟩ := hplace ([] ++ front) x.row (h.home p x hx).1
          have hslot : p' = p := h.slot_unique hx' hx (congrArg Prod.snd hrow)
          refine absurd hslot (hnone ⟨p', ⟨x.row.1, x.row.2, y⟩⟩ ?_)
          rw [hrows, placements_append, placements, hp]
          simp
    rw [hat, hempty]
    cases p <;> rfl

variable [LawfulTable σ] {trace : Trace} {table : σ}

/-- **A second registry on the same rows cannot be told from the first.** -/
theorem Kempt.restored (h : Kempt trace a) (mindful : a.Mindful)
    (same : ∀ rows, LawfulTable.Holds a.table rows → LawfulTable.Holds table rows) :
    a.Restored table := by
  obtain ⟨rows, holds, matched⟩ := h.matched
  let s : Atlas σ := ⟨⟨{ a.settings with eager := true }, {}, .empty, []⟩, table, a.trace⟩
  -- the second registry before it has loaded anything
  have hplace := fun (before : List Row) (row : Row) (hrow : row ∈ rows) =>
    matched.placement?_anew (s := s) rfl rfl rfl rfl h.orderly.reliable before hrow
  have hread : (EntryTable.rows s.table).1 = .ok rows := LawfulTable.rows_eq (same rows holds)
  have hdone : s.loadTable.1 = .ok () := loadTable_ok (a := s) h.orderly.reliable hread
  obtain ⟨c, hloaded, hresult⟩ :=
    loadTable_loaded (SameWorld.refl s) rfl rfl hread matched.keys hdone
  have hidle := idle_report s.loadTable.2
  have hrestart : a.restart table = (.ok (), s.loadTable.2.report) := by
    show ((s.loadTable.1, s.loadTable.2.report) : Answer σ Unit) = _
    rw [hdone]
  have hslots : ∀ p, (s.loadTable.2.report.caches.at? p).map SubSpace.likeness =
      (a.caches.at? p).map SubSpace.likeness := by
    intro p
    rw [hidle.caches, hresult, ← matched.slots_anew hplace p]
    show ((c.caches.keepBindings _).at? p).map _ = _
    rw [Caches.at?_keepBindings, hloaded.caches]
    rfl
  have hpeers : Peers SubSpace.likeness a s.loadTable.2.report := by
    have hworld := (sameWorld_loadTable s).trans hidle.toSameWorld
    have hcontexts : s.loadTable.2.report.settings.contexts = s.settings.contexts := by
      rw [hworld.settings]
    have hobjects : s.loadTable.2.report.settings.objects = s.settings.objects := by
      rw [hworld.settings]
    exact ⟨hcontexts, hobjects, hworld.contexts, hworld.schema, hworld.nodes, hworld.directory,
      hslots⟩
  have hnothing : s.loadTable.2.report.registry.byObject = .empty := by
    rw [hidle.byObject, hresult]
    exact hloaded.byObject
  refine ⟨?_, ?_, ?_⟩
  · rw [hrestart]
  · have htable : s.loadTable.2.report.table = (EntryTable.rows table).2 := by
      rw [hidle.table, hresult]
      exact hloaded.table
    rw [hrestart, LawfulTable.rows_eq holds]
    show (EntryTable.rows s.loadTable.2.report.table).1 = _
    rw [htable]
    exact LawfulTable.rows_eq (LawfulTable.rows_holds (same rows holds))
  · intro qs native
    rw [hrestart]
    exact hpeers.answers mindful (mindful_of_empty hnothing) native

/-! ## Runs that keep the right things for objects -/

theorem stable_mindful {q : Query} {create : Bool} (proper : q.Proper trace.contexts)
    (native : q.Native trace.objects) :
    Stable q create (UnlessSentinel fun a : Atlas σ => Kempt trace a ∧ a.Mindful) := by
  apply stable_unlessSentinel
  · rintro a b hidle ⟨ha, hmindful⟩
    exact ⟨ha.of_idle hidle, hmindful.of_idle hidle⟩
  · rintro a b name hminted ⟨ha, hmindful⟩
    exact ⟨ha.of_minted hminted, hmindful.of_minted hminted⟩
  · rintro a b t r hsentinel names hfilled ⟨ha, hmindful⟩
    exact ⟨ha.of_names proper hsentinel names hfilled, hmindful.of_filled hfilled⟩
  · rintro a object frame container space x named hfound ⟨ha, hmindful⟩
    refine ⟨ha.remember _ _ _, hmindful.remember ?_ hfound⟩
    exact (ObjectTree.has_congr ha.nodes object).mpr (native object named)

theorem perform_mindful {c : Call} (proper : c.Proper trace.contexts)
    (native : c.Native trace.objects)
    (h : UnlessSentinel (fun a : Atlas σ => Kempt trace a ∧ a.Mindful) a) :
    UnlessSentinel (fun a : Atlas σ => Kempt trace a ∧ a.Mindful) (a.perform c) := by
  cases c with
  | ask q create => exact (stable_mindful proper native).ask h
  | load =>
      apply h.of_extends (sameWorld_load a).extends_directory
      rintro - ⟨ha, hmindful⟩
      obtain ⟨hload, hslots, hobjects⟩ := ha.load
      exact ⟨hload, hmindful.of_world (sameWorld_load a) hobjects hslots⟩
  | invalidate =>
      apply h.of_extends (sameWorld_invalidate a).extends_directory
      rintro - ⟨ha, -⟩
      obtain ⟨hreload, -, hobjects⟩ := ha.invalidate
      exact ⟨hreload, mindful_of_empty hobjects⟩

variable {settings : Settings} {calls : List Call}

theorem run_mindful (orderly : Orderly settings trace) (empty : LawfulTable.Holds table [])
    (proper : ∀ c ∈ calls, c.Proper trace.contexts) (native : ∀ c ∈ calls, c.Native trace.objects) :
    UnlessSentinel (fun a : Atlas σ => Kempt trace a ∧ a.Mindful)
      ((start settings table trace).2.run calls) := by
  apply run_preserves
  · intro a c hc ha
    exact perform_mindful (proper c hc) (native c hc) ha
  · intro _
    have hstart := kempt_start orderly empty
    refine ⟨hstart, mindful_of_empty ?_⟩
    have hnew : Kempt trace (⟨⟨settings, {}, .empty, []⟩, table, trace⟩ : Atlas σ) :=
      kempt_new orderly empty
    unfold start
    dsimp only
    split
    · exact hnew.load.2.2
    · rfl

/-! ## Restarts after a run -/

/-- The table of a file was opened anew, and the second registry on it is not told from `a`. -/
def RestoredFrom (a : Atlas FileOnDisk) (opened : FileTable.Opened) : Prop :=
  ∃ table, opened.table = .ok table ∧ a.Restored ⟨opened.disk, table⟩

/-- **Whatever a registry was asked for, a second one on its table is not told from it,** be the
table in memory or in a file that is opened anew. -/
theorem restart_restores (orderly : Orderly settings trace)
    (proper : ∀ c ∈ calls, c.Proper trace.contexts) (native : ∀ c ∈ calls, c.Native trace.objects) :
    (∀ table : MemoryTable, table.rows = [] →
      let a := (start settings table trace).2.run calls
      a.trace.directory.find? noAddressName = none → a.Restored a.table) ∧
    ∀ (d : Disk) (root : String) (table : FileTable),
      (FileTable.openAt d root settings.entryTable).table = .ok table → table.kept = some [] →
      let handle : FileOnDisk := ⟨(FileTable.openAt d root settings.entryTable).disk, table⟩
      let a := (start settings handle trace).2.run calls
      a.trace.directory.find? noAddressName = none →
      a.RestoredFrom (FileTable.openAt a.table.disk root settings.entryTable) := by
  constructor
  · intro table hempty a sentinel
    have holds : LawfulTable.Holds table [] := ⟨hempty, by simp⟩
    obtain ⟨kept, mindful⟩ := run_mindful orderly holds proper native sentinel
    exact kept.restored mindful fun _ h => h
  · intro d root table hopen hempty handle a sentinel
    let := FileOnDisk.lawful root settings.entryTable
    have holds : LawfulTable.Holds handle [] := FileOnDisk.holds_of_openAt hopen hempty
    obtain ⟨kept, mindful⟩ := run_mindful orderly holds proper native sentinel
    obtain ⟨rows, hrows, -⟩ := kept.matched
    obtain ⟨reopened, hreopen, hagain⟩ := FileOnDisk.Holds.openAt hrows
    refine ⟨reopened, hreopen, kept.restored mindful ?_⟩
    -- the first handle holds no other rows than those it was seen to hold
    intro others hothers
    have hsame : others = rows :=
      Except.ok.inj ((FileOnDisk.Holds.rows_eq hothers).symm.trans (FileOnDisk.Holds.rows_eq hrows))
    rw [hsame]
    exact hagain

theorem restart_restores_manyCalls :
    (let a := (start { name := "Memory" } ({ name := "MemorySpaces" } : MemoryTable) .single).2.run
        manyCalls
     a.Restored a.table) ∧
    ∃ table,
      (FileTable.openAt {} "/traces" (Settings.entryTable { name := "Memory" })).table = .ok table ∧
      let handle : FileOnDisk :=
        ⟨(FileTable.openAt {} "/traces" (Settings.entryTable { name := "Memory" })).disk, table⟩
      let a := (start { name := "Memory" } handle .single).2.run manyCalls
      a.RestoredFrom
        (FileTable.openAt a.table.disk "/traces" (Settings.entryTable { name := "Memory" })) := by
  obtain ⟨memory, file⟩ := restart_restores orderly_single
    (show ∀ c ∈ manyCalls, c.Proper Trace.single.contexts by decide) (by decide)
  refine ⟨memory { name := "MemorySpaces" } rfl (by decide), ?_⟩
  have hopen : (FileTable.openAt {} "/traces" (Settings.entryTable { name := "Memory" })).table =
      .ok ⟨"MemorySpaces", "/traces/spaces/MemorySpaces.log", some []⟩ := by
    decide +kernel
  exact ⟨_, hopen, file {} "/traces" _ hopen rfl (by decide +kernel)⟩

end Atlas
end TraceAtlas
