import TraceAtlas.Proofs.Handles
import TraceAtlas.Proofs.SharedRun

/-!
# After a reload that failed

A reload empties the slots before it knows whether it can fill them again. If the table cannot be
read then, or the factory stops the load at a row, slots stay empty although their rows are still
there, and a lookup that creates writes a second row for them. The counterexample at the end is one.

What a failed reload does not take are the bindings: a sub-space stays `Moored` to its row. The next
load or reload that succeeds finds it again, whatever was done in the meantime, and from then on
every lookup that comes down to the slot answers it.
-/

namespace TraceAtlas.Atlas

variable {σ : Type} [EntryTable σ] {a b : Atlas σ} {p : SlotKey} {x : SubSpace} {q : Query}

/-- The registry on another table and with another factory. -/
def amid (a : Atlas σ) (table : σ) (factory : Factory) : Atlas σ :=
  { a with table, trace := { a.trace with factory } }

/-! ## Lookups that come down to a slot -/

/-- A lookup comes down to a slot, by its handle or through an object for which nothing is kept. -/
inductive Reaches (a : Atlas σ) (q : Query) : SlotKey → Prop
  | space {space : AddressSpace} (handle : a.handle? q = some (.space space)) :
      Reaches a q (.memory space)
  | bank {bank : Bank} (contexts : a.settings.contexts = true)
      (handle : a.handle? q = some (.bank bank)) : Reaches a q (.register bank)
  | container {object container : ObjectRef} {frame : UInt32} {space : AddressSpace}
      (contexts : a.settings.contexts = true)
      (handle : a.handle? q = some (.object ⟨object.id, frame⟩)) (named : q.object? = some object)
      (unknown : a.objectHit object frame = none)
      (leads : a.container? object frame = some container)
      (offers : a.trace.directory.OffersOverlays)
      (found : a.trace.directory.find? container.path.text = some space) :
      Reaches a q (.memory space)

/-- A lookup that comes down to a slot answers what the slot holds. -/
theorem Reaches.serves (h : a.Reaches q p) (held : a.caches.at? p = some x) (create : Bool) :
    a.Serves q create x := by
  cases h with
  | @space space handle =>
      have hholds : a.Holds (.space space) x := ⟨held, .inr ⟨space, rfl⟩⟩
      exact ask_of_holds hholds handle create
  | @bank bank contexts handle =>
      have hholds : a.Holds (.bank bank) x := ⟨held, .inl contexts⟩
      exact ask_of_holds hholds handle create
  | container contexts handle named unknown leads offers found =>
      rcases ask_object handle named create with eq | ⟨e, blame, eq⟩ | ⟨without, -⟩
      · obtain ⟨hanswer, htable⟩ :=
          lookupRegister_of_container contexts unknown leads offers found held create
        refine ⟨?_, eq ▸ htable⟩
        rw [eq, hanswer]
        exact peekSpace_of_held held
      · exact ⟨.inr ⟨e, by rw [eq], blame⟩, by rw [eq]⟩
      · rw [contexts] at without
        cases without

variable [SharedTable σ]

/-! ## Sub-spaces that are moored -/

/-- The table shows the row of a sub-space, which leads to a slot and is bound to the sub-space. -/
def Moored (a : Atlas σ) (p : SlotKey) (x : SubSpace) : Prop :=
  ∃ rows, SharedTable.Shows a.table rows ∧ a.Anchored rows p x

theorem Moored.of_world (ha : a.Moored p x) (h : SameWorld a b) (caches : b.caches = a.caches)
    (table : b.table = a.table) : b.Moored p x := by
  obtain ⟨rows, shows, anchored⟩ := ha
  refine ⟨rows, ?_, anchored.of_world h caches⟩
  rw [table]
  exact shows

theorem Moored.of_idle (ha : a.Moored p x) (h : Idle a b) : b.Moored p x :=
  ha.of_world h.toSameWorld h.caches h.table

theorem Moored.of_filled {t : Target} {r : Except SpaceError (Option SubSpace)}
    (ha : a.Moored p x) (h : Filled a t r b) : b.Moored p x := by
  obtain ⟨rows, shows, anchored⟩ := ha
  obtain ⟨more, hmore, hadded⟩ := h.added shows
  refine ⟨more, hmore, ?_⟩
  cases hadded with
  | nothing caches => exact anchored.of_world h.sameWorld caches
  | row fresh caches =>
      exact (anchored.of_world h.sameWorld caches).mono (List.subset_append_left _ _)
  | space fresh row caches => exact anchored.put h.sameWorld fresh caches

theorem stable_moored (q : Query) (create : Bool) (p : SlotKey) (x : SubSpace) :
    Stable q create fun a : Atlas σ => a.Moored p x where
  idle hidle ha := ha.of_idle hidle
  mint {a b _} _ hminted ha := by
    obtain ⟨rows, shows, anchored⟩ := ha
    refine ⟨rows, ?_, anchored.of_minted hminted⟩
    rw [hminted.idle.table]
    exact shows
  fill _ _ hfilled ha := ha.of_filled hfilled
  remember _ _ _ ha := ha.of_world ⟨rfl, rfl, rfl, rfl, rfl⟩ rfl rfl

theorem Moored.load (ha : a.Moored p x) : a.load.2.Moored p x := by
  obtain ⟨rows, shows, anchored⟩ := ha
  obtain ⟨hfetched, hshows⟩ := fetched_loadTable (.refl a) rfl rfl shows
  have hanchored := anchored.of_fetched hfetched (fun _ hrow => hrow) (SharedTable.keys shows)
  exact Moored.of_idle ⟨rows, hshows, hanchored⟩ (idle_report a.loadTable.2)

/-- **A reload takes no sub-space from its row,** even if it fails on the way. -/
theorem Moored.invalidate (ha : a.Moored p x) : a.invalidate.2.Moored p x := by
  obtain ⟨rows, shows, anchored⟩ := ha
  obtain ⟨more, hmore, hrows⟩ := SharedTable.invalidate_shows shows
  obtain ⟨hfetched, hshows⟩ := fetched_loadTable (sameWorld_clear a) rfl rfl hmore
  apply invalidate_preserves (P := fun b => b.Moored p x)
  · intro b c hidle hb
    exact hb.of_idle hidle
  · intro b hb
    exact hb.of_world (sameWorld_forgetAll b) rfl rfl
  · exact ⟨more, hshows, anchored.of_fetched hfetched hrows (SharedTable.keys hmore)⟩

theorem Moored.moved (ha : a.Moored p x) (m : Move) : (a.moved m).Moored p x := by
  cases m with
  | call c =>
      cases c with
      | ask q create => exact (stable_moored q create p x).ask ha
      | load => exact ha.load
      | invalidate => exact ha.invalidate
  | write entry =>
      obtain ⟨rows, shows, anchored⟩ := ha
      obtain ⟨more, hmore, hrows⟩ := SharedTable.write_shows entry shows
      exact ⟨more, hmore, (anchored.mono hrows).of_world ⟨rfl, rfl, rfl, rfl, rfl⟩ rfl⟩

theorem Moored.runShared (ha : a.Moored p x) (moves : List Move) :
    (a.runShared moves).Moored p x :=
  runShared_preserves (P := fun b => b.Moored p x) (fun _ hb => hb.moved _) ha

/-! ## Reloads that fail -/

/-- With such a table and such a factory, a reload fails as a whole: the table cannot be read, or it
is as the registry knows it, and some row meets a factory of another version. -/
inductive ReloadFails (a : Atlas σ) (table : σ) (factory : Factory) : Prop
  | unreadable {e : TableError}
      (read : (EntryTable.rows (EntryTable.invalidate table)).1 = .error e)
  | stopped {e : SpaceError} (same : table = a.table)
      (refused : (a.amid table factory).invalidate.1 = .error e)

omit [SharedTable σ] in
theorem loadTable_unreadable {e : TableError} (read : (EntryTable.rows a.table).1 = .error e) :
    Idle { a with table := (EntryTable.rows a.table).2 } a.loadTable.2 := by
  have hidle := idle_settle { a with table := (EntryTable.rows a.table).2 }
    (EntryTable.name (EntryTable.rows a.table).2) (.error e : Except TableError (List Row))
  have hnothing : ∀ rows, (settle { a with table := (EntryTable.rows a.table).2 }
      (EntryTable.name (EntryTable.rows a.table).2)
      (.error e : Except TableError (List Row))).1 ≠ .ok (some rows) := by
    intro rows hrows
    cases settle_fst_eq_ok_some_iff.mp hrows
  unfold loadTable readRows
  simp only [read]
  revert hidle hnothing
  generalize settle { a with table := (EntryTable.rows a.table).2 } _ _ = answer
  obtain ⟨_ | _ | rows, b⟩ := answer
  · exact fun hidle _ => hidle
  · exact fun hidle _ => hidle
  · exact fun _ hnothing => absurd rfl (hnothing rows)

/-- **Sub-spaces are still moored after a reload that failed,** once the table shows their rows
again. -/
theorem ReloadFails.moored {broken mended : σ} {faulty : Factory} {rows : List Row}
    (fails : a.ReloadFails broken faulty) (ha : a.Moored p x)
    (shows : SharedTable.Shows mended rows) (persisted : x.row ∈ rows) (factory : Factory) :
    ((a.amid broken faulty).invalidate.2.amid mended factory).Moored p x := by
  obtain ⟨hleads, hbound⟩ : (a.amid broken faulty).invalidate.2.slot? x.slot.entry = some p ∧
      (a.amid broken faulty).invalidate.2.caches.binding? x.slot.key x.slot.entry = some x := by
    cases fails with
    | unreadable read =>
        obtain ⟨old, -, anchored⟩ := ha
        have hworld := sameWorld_invalidate (a.amid broken faulty)
        refine ⟨(hworld.slot?_eq _).trans anchored.leads, ?_⟩
        apply invalidate_preserves
          (P := fun b => b.caches.binding? x.slot.key x.slot.entry = some x)
        · intro b c hidle hb
          rw [hidle.caches]
          exact hb
        · intro b hb
          exact hb
        · rw [(loadTable_unreadable (a := (a.amid broken faulty).clear) read).caches]
          exact anchored.bound
    | stopped same refused =>
        subst same
        have hsame : (a.amid a.table faulty).Moored p x :=
          ha.of_world ⟨rfl, rfl, rfl, rfl, rfl⟩ rfl rfl
        obtain ⟨more, -, anchored⟩ := hsame.invalidate
        exact ⟨anchored.leads, anchored.bound⟩
  exact ⟨rows, shows, hleads, persisted, hbound⟩

/-! ## Loads that succeed -/

/-- The call reads these rows from the table and succeeds in loading them. -/
inductive Refreshes (a : Atlas σ) (rows : List Row) : Call → Prop
  | load (read : (EntryTable.rows a.table).1 = .ok rows) (done : a.load.1 = .ok ()) :
      Refreshes a rows .load
  | invalidate (read : (EntryTable.rows (EntryTable.invalidate a.table)).1 = .ok rows)
      (done : a.invalidate.1 = .ok ()) : Refreshes a rows .invalidate

/-- What is moored is found again, if its row has the last word on the slot. -/
theorem Refreshes.at?_eq {rows : List Row} {c : Call} (h : a.Refreshes rows c)
    (ha : a.Moored p x) (last : a.lastFor? rows p = some x.row) :
    (a.perform c).caches.at? p = some x := by
  obtain ⟨shown, shows, anchored⟩ := ha
  cases h with
  | load read done =>
      obtain rfl : shown = rows := Except.ok.inj ((SharedTable.rows_eq shows).symm.trans read)
      show a.loadTable.2.report.caches.at? p = some x
      rw [(idle_report _).caches]
      exact at?_loadTable_of_bound (.refl a) rfl rfl read (SharedTable.keys shows) done last
        anchored.bound
  | invalidate read done =>
      obtain ⟨more, hmore, -⟩ := SharedTable.invalidate_shows shows
      obtain rfl : more = rows := Except.ok.inj ((SharedTable.rows_eq hmore).symm.trans read)
      rw [invalidate_fst] at done
      apply invalidate_preserves (P := fun b => b.caches.at? p = some x)
      · intro b c hidle hb
        rw [hidle.caches]
        exact hb
      · intro b hb
        exact hb
      · exact at?_loadTable_of_bound (sameWorld_clear a) rfl rfl read (SharedTable.keys hmore) done
          last anchored.bound

/-- **A load that succeeds makes up for a reload that failed.** Whatever was done before and in
between, every slot whose sub-space has the last row that leads there holds it again, and lookups
that come down to the slot answer it and write no row. -/
theorem refreshed_serves {settings : Settings} {table : σ} {trace : Trace} {start : List Row}
    (registers : HasRegisters settings trace.directory) (shows : SharedTable.Shows table start)
    (before after : List Move) {broken mended : σ} {faulty factory : Factory}
    {rows current : List Row} {again : Call} :
    let a := (Atlas.start settings table trace).2.runShared before
    let b := ((a.amid broken faulty).invalidate.2.amid mended factory).runShared after
    a.caches.at? p = some x → a.slot? x.slot.entry = some p → a.ReloadFails broken faulty →
    SharedTable.Shows mended rows → x.row ∈ rows →
    b.Refreshes current again → b.lastFor? current p = some x.row →
      (b.perform again).caches.at? p = some x ∧
        ∀ q create, (b.perform again).Reaches q p → (b.perform again).Serves q create x := by
  intro a b held leads fails again_shows persisted refreshes last
  obtain ⟨known, known_shows, rooted⟩ := ((grounded_start registers shows).runShared before).rooted
  have hmoored : a.Moored p x := ⟨known, known_shows, rooted.home p x held leads⟩
  have hafter : b.Moored p x :=
    (fails.moored hmoored again_shows persisted factory).runShared after
  have hheld := refreshes.at?_eq hafter last
  exact ⟨hheld, fun q create reaches => reaches.serves hheld create⟩

/-- A row of another writer stops the reload at once, and an overlay is minted before the load. -/
theorem refreshed_serves_stopped :
    let ram : AddressSpace := ⟨2, "ram", .memory, none⟩
    let x : SubSpace := ⟨0, ram, none, ⟨1, .unbound "ram", "Memory_ram"⟩⟩
    let a := (start { name := "Memory" } ({ name := "MemorySpaces" } : MemoryTable)
      .single).2.runShared [.write (.unbound "register"), .call (.ask (.space ram) true)]
    let b := ((a.amid a.table { a.trace.factory with plan := [some .version] }).invalidate.2.amid
      a.table {}).runShared [.call (.ask (.frame (.object .single)) true)]
    a.caches.at? (.memory ram) = some x ∧ b.caches.at? (.memory ram) = none ∧
      b.load.2.caches.at? (.memory ram) = some x ∧ b.load.2.Serves (.space ram) true x := by
  intro ram x a b
  have held : a.caches.at? (.memory ram) = some x := by decide +kernel
  have leads : a.slot? x.slot.entry = some (.memory ram) := by decide +kernel
  have fails : a.ReloadFails a.table { a.trace.factory with plan := [some .version] } := by
    apply ReloadFails.stopped (e := .schema "Memory_register"
      (.version "Memory_register" schemaVersion (schemaVersion + 1))) rfl
    decide +kernel
  have shows : SharedTable.Shows a.table [(0, .unbound "register"), (1, .unbound "ram")] :=
    ⟨⟨by decide +kernel, by decide +kernel⟩, by decide⟩
  have refreshes : b.Refreshes
      [(0, .unbound "register"), (1, .unbound "ram"), (2, .unbound "Registers")] .load :=
    .load (by decide +kernel) (by decide +kernel)
  have last : b.lastFor? [(0, .unbound "register"), (1, .unbound "ram"), (2, .unbound "Registers")]
      (.memory ram) = some x.row := by
    decide +kernel
  obtain ⟨hheld, hserves⟩ := refreshed_serves orderly_single.hasRegisters
    (MemoryTable.shows_nil "MemorySpaces") _ _ held leads fails shows (by decide) refreshes last
  exact ⟨held, by decide +kernel, hheld, hserves (.space ram) true (.space rfl)⟩

/-- A file that cannot be read during a reload and is then as it was: the slot stays empty, and the
lookup that creates answers another sub-space, for a second row. -/
theorem not_serves_unreadable :
    let := FileOnDisk.shared "/traces" "MemorySpaces"
    let ram : AddressSpace := ⟨2, "ram", .memory, none⟩
    let x : SubSpace := ⟨0, ram, none, ⟨0, .unbound "ram", "Memory_ram"⟩⟩
    let opened := FileTable.openAt {} "/traces" "MemorySpaces"
    let file : FileTable := ⟨"MemorySpaces", "/traces/spaces/MemorySpaces.log", some []⟩
    let a := (start { name := "Memory" } (⟨opened.disk, file⟩ : FileOnDisk) .single).2.runShared
      [.call (.ask (.space ram) true)]
    let torn := (a.table.disk.append file.path [0]).toOption.getD a.table.disk
    let b := (a.amid { a.table with disk := torn } a.trace.factory).invalidate.2
    let c := b.amid { b.table with disk := a.table.disk } a.trace.factory
    opened.table = .ok file ∧ a.caches.at? (.memory ram) = some x ∧
      a.ReloadFails { a.table with disk := torn } a.trace.factory ∧
      (EntryTable.rows c.table).1 = .ok [x.row] ∧ c.Reaches (.space ram) (.memory ram) ∧
      ¬ c.Serves (.space ram) true x := by
  intro _ ram x opened file a torn b c
  have unreadable : (EntryTable.rows (EntryTable.invalidate { a.table with disk := torn })).1 =
      .error (.corrupt (.truncatedLength "MemorySpaces" 1)) := by
    decide +kernel
  refine ⟨by decide +kernel, by decide +kernel, .unreadable unreadable, by decide +kernel,
    .space rfl, ?_⟩
  intro h
  have answered : (c.ask (.space ram) true).1 =
      .ok (some ⟨1, ram, none, ⟨1, .unbound "ram", "Memory_ram"⟩⟩) := by
    decide +kernel
  rcases h.answer with hsame | ⟨e, herror, -⟩
  · exact absurd (answered.symm.trans hsame) (by decide)
  · rw [answered] at herror
    cases herror

end TraceAtlas.Atlas
