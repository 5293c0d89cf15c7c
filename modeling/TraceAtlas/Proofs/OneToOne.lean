import TraceAtlas.Proofs.Correspondence

/-!
# One row for one slot

`run_oneToOne` is what `Matched` comes to for whoever looks at a registry from outside: in every
state that calls can reach, rows and slots correspond one to one. The calls may be any lookups
that are `Proper`, loads and reloads in any order; what is asked of the surroundings is asked of
those at the start, except that no overlay may ever be named like the sentinel.
-/

namespace TraceAtlas.Atlas

variable {σ : Type} [EntryTable σ] [LawfulTable σ]

/-- The surroundings are in order and have the contexts and objects of `trace`, and the slots match
the rows of the table. -/
structure Kempt (trace : Trace) (a : Atlas σ) : Prop where
  orderly : Orderly a.settings a.trace
  contexts : a.trace.contexts = trace.contexts
  nodes : a.trace.objects.nodes = trace.objects.nodes
  matched : ∃ rows, LawfulTable.Holds a.table rows ∧ a.Matched rows

variable {trace : Trace} {a b : Atlas σ}

theorem Kempt.of_idle (h : Kempt trace a) (hidle : Idle a b) : Kempt trace b := by
  obtain ⟨rows, holds, matched⟩ := h.matched
  refine ⟨?_, hidle.contexts.trans h.contexts, hidle.nodes.trans h.nodes, rows, ?_, ?_⟩
  · refine hidle.orderly ?_ h.orderly
    rw [hidle.factory]
    exact h.orderly.reliable
  · rw [hidle.table]
    exact holds
  · exact matched.of_world hidle.toSameWorld hidle.caches

theorem Kempt.of_minted {name : String} (h : Kempt trace a) (hminted : Minted a name b) :
    Kempt trace b := by
  obtain ⟨rows, holds, matched⟩ := h.matched
  refine ⟨hminted.orderly h.orderly, hminted.idle.contexts.trans h.contexts,
    hminted.idle.nodes.trans h.nodes, rows, ?_, ?_⟩
  · rw [hminted.idle.table]
    exact holds
  · refine matched.of_slots ?_ ?_ ?_ ?_ fun entry t => hminted.target?_eq
    · intro p
      rw [hminted.idle.caches]
      rfl
    · intro key
      rw [hminted.idle.caches]
      rfl
    · rw [hminted.idle.caches]
      exact matched.sorted
    · rw [hminted.idle.settings]
      rfl

theorem Kempt.of_filled {t : Target} {r : Except SpaceError (Option SubSpace)}
    (h : Kempt trace a) (htarget : a.target? t.entry = some t) (hfilled : Filled a t r b) :
    Kempt trace b := by
  obtain ⟨rows, holds, matched⟩ := h.matched
  have hworld : SameWorld a b := hfilled.sameWorld
  have hcontexts := hworld.contexts.trans h.contexts
  have hnodes := hworld.nodes.trans h.nodes
  cases hfilled with
  | held held => exact h
  | noRow empty create nothing idle =>
      refine ⟨hworld.orderly ?_ h.orderly, hcontexts, hnodes, rows, ?_,
        matched.of_world hworld idle.caches⟩
      · rw [idle.factory]
        exact h.orderly.reliable
      · rw [idle.table]
        exact LawfulTable.refused_holds holds create
  | noSpace empty create planned nothing kept caches plan count =>
      -- a row without a sub-space would break the correspondence
      rw [h.orderly.reliable 0] at planned
      cases planned
  | @made _ key table empty create planned kept caches plan count =>
      obtain ⟨hkey, hrows⟩ := LawfulTable.create_holds holds create
      refine ⟨hworld.orderly (h.orderly.reliable.of_plan_tail plan) h.orderly, hcontexts,
        hnodes, rows ++ [(key, t.entry)], ?_, matched.put hworld htarget empty hkey caches⟩
      rw [kept.table]
      exact hrows

theorem Kempt.remember (h : Kempt trace a) (object : ObjectRef) (frame : UInt32) (x : SubSpace) :
    Kempt trace (a.remember object frame x) := by
  obtain ⟨rows, holds, matched⟩ := h.matched
  exact ⟨h.orderly, h.contexts, h.nodes, rows, holds,
    matched.of_world ⟨rfl, rfl, rfl, rfl, rfl⟩ rfl⟩

/-! ## Names that nobody takes -/

/-- `P` holds unless a space is named like the sentinel. -/
def UnlessSentinel (P : Atlas σ → Prop) (a : Atlas σ) : Prop :=
  a.trace.directory.find? noAddressName = none → P a

variable {P : Atlas σ → Prop}

omit [EntryTable σ] [LawfulTable σ] in
/-- Names are never taken back, so a step need only preserve `P` if the name is free before it. -/
theorem UnlessSentinel.of_extends (h : UnlessSentinel P a)
    (grown : a.trace.directory.Extends b.trace.directory)
    (step : a.trace.directory.find? noAddressName = none → P a → P b) : UnlessSentinel P b := by
  intro hb
  have ha := grown.find?_eq_none hb
  exact step ha (h ha)

omit [LawfulTable σ] in
theorem stable_unlessSentinel {q : Query} {create : Bool} (idle : ∀ {a b}, Idle a b → P a → P b)
    (mint : ∀ {a b name}, Minted a name b → P a → P b)
    (fill : ∀ {a b t r}, a.trace.directory.find? noAddressName = none → a.Names q t →
      Filled a t r b → P a → P b)
    (remember : ∀ {a object frame container space x}, q.object? = some object →
      a.Found object frame container space x → P a → P (a.remember object frame x)) :
    Stable q create (UnlessSentinel P) where
  idle hidle h := h.of_extends hidle.extends_directory fun _ ha => idle hidle ha
  mint _ hminted h := h.of_extends hminted.extends_directory fun _ ha => mint hminted ha
  fill _ names hfilled h := h.of_extends hfilled.sameWorld.extends_directory
    fun hsentinel ha => fill hsentinel names hfilled ha
  remember named _ hfound h hsentinel := remember named hfound (h hsentinel)

theorem Kempt.of_names {q : Query} {t : Target} {r : Except SpaceError (Option SubSpace)}
    (h : Kempt trace a) (hq : q.Proper trace.contexts)
    (hsentinel : a.trace.directory.find? noAddressName = none) (names : a.Names q t)
    (hfilled : Filled a t r b) : Kempt trace b := by
  refine h.of_filled (names.target?_eq ?_ h.orderly hsentinel) hfilled
  rw [h.contexts]
  exact hq

theorem stable_kempt {q : Query} {create : Bool} (hq : q.Proper trace.contexts) :
    Stable q create (UnlessSentinel (Kempt (σ := σ) trace)) :=
  stable_unlessSentinel (fun hidle ha => ha.of_idle hidle) (fun hminted ha => ha.of_minted hminted)
    (fun hsentinel names hfilled ha => ha.of_names hq hsentinel names hfilled)
    (fun _ _ ha => ha.remember _ _ _)

/-! ## Loads -/

theorem Refilled.kempt {s : Atlas σ} {rows : List Row} (h : Kempt trace a)
    (hrefilled : Refilled a s rows b) : Kempt trace b :=
  ⟨hrefilled.world.orderly hrefilled.reliable h.orderly, hrefilled.world.contexts.trans h.contexts,
    hrefilled.world.nodes.trans h.nodes, rows, hrefilled.holds, hrefilled.matched⟩

/-- Loading leaves every slot as it is, and what was found through objects too. -/
theorem Kempt.load (h : Kempt trace a) :
    Kempt trace a.load.2 ∧ (∀ p, a.load.2.caches.at? p = a.caches.at? p) ∧
      a.load.2.registry.byObject = a.registry.byObject := by
  obtain ⟨rows, holds, matched⟩ := h.matched
  obtain ⟨-, hrefilled⟩ := matched.loadTable (.refl a) rfl rfl h.orderly.reliable
    (fun _ _ hx => hx) matched.sorted holds
  have hidle := idle_report a.loadTable.2
  refine ⟨(hrefilled.kempt h).of_idle hidle, ?_, hidle.byObject.trans hrefilled.byObject⟩
  intro p
  show a.loadTable.2.report.caches.at? p = _
  rw [hidle.caches]
  exact hrefilled.slots p

theorem Kempt.invalidate (h : Kempt trace a) :
    Kempt trace a.invalidate.2 ∧ (∀ p, a.invalidate.2.caches.at? p = a.caches.at? p) ∧
      a.invalidate.2.registry.byObject = .empty := by
  obtain ⟨rows, holds, matched⟩ := h.matched
  -- the slots are empty, but the bindings still know what was in them
  have hempty : ∀ p x, a.clear.caches.at? p = some x → a.caches.at? p = some x := by
    intro p x hx
    rw [show a.clear.caches.at? p = none from Caches.at?_clearSlots _ p] at hx
    cases hx
  obtain ⟨hdone, hrefilled⟩ := matched.loadTable (sameWorld_clear a) rfl rfl
    h.orderly.reliable hempty (Caches.sorted_clearSlots _) (LawfulTable.invalidate_holds holds)
  have hforget : Refilled a a.clear rows a.clear.loadTable.2.forgetAll := by
    have hworld := sameWorld_forgetAll a.clear.loadTable.2
    exact ⟨hrefilled.world.trans hworld, hrefilled.byObject, hrefilled.reliable, hrefilled.holds,
      hrefilled.slots, hrefilled.matched.of_world hworld rfl⟩
  have hidle := idle_report a.clear.loadTable.2.forgetAll
  rw [invalidate_snd_of_ok hdone]
  refine ⟨(hforget.kempt h).of_idle hidle, ?_, hidle.byObject.trans hforget.byObject⟩
  intro p
  rw [hidle.caches]
  exact hforget.slots p

/-! ## Runs -/

theorem perform_kempt {c : Call} (proper : c.Proper trace.contexts)
    (h : UnlessSentinel (Kempt trace) a) : UnlessSentinel (Kempt trace) (a.perform c) := by
  cases c with
  | ask q create => exact (stable_kempt proper).ask h
  | load => exact h.of_extends (sameWorld_load a).extends_directory fun _ ha => ha.load.1
  | invalidate =>
      exact h.of_extends (sameWorld_invalidate a).extends_directory fun _ ha => ha.invalidate.1

variable {settings : Settings} {table : σ} {calls : List Call}

theorem kempt_new (orderly : Orderly settings trace) (empty : LawfulTable.Holds table []) :
    Kempt trace ⟨⟨settings, {}, .empty, []⟩, table, trace⟩ :=
  ⟨orderly, rfl, rfl, [], empty, matched_nil rfl⟩

theorem kempt_start (orderly : Orderly settings trace) (empty : LawfulTable.Holds table []) :
    Kempt trace (start settings table trace).2 := by
  have hnew := kempt_new orderly empty
  unfold start
  dsimp only
  split
  · exact hnew.load.1
  · exact hnew

theorem run_kempt (orderly : Orderly settings trace) (empty : LawfulTable.Holds table [])
    (proper : ∀ c ∈ calls, c.Proper trace.contexts) :
    UnlessSentinel (Kempt trace) ((start settings table trace).2.run calls) := by
  refine run_preserves ?_ (fun _ => kempt_start orderly empty)
  intro a c hc ha
  exact perform_kempt (proper c hc) ha

/-! ## The correspondence from outside -/

/-- The rows of the table and the sub-spaces in slots correspond one to one. -/
structure OneToOne (a : Atlas σ) (rows : List Row) : Prop where
  keys : (rows.map Prod.fst).Nodup
  entries : (rows.map Prod.snd).Nodup
  /-- All sub-spaces in slots together are built for all rows together, one for each. -/
  live : (a.caches.spaces.map SubSpace.row).Perm rows
  slot : ∀ row ∈ rows, ∃! p, ∃ x, a.caches.at? p = some x ∧ x.row = row
  /-- A memory slot has a row, and its entry is that of the slot's space. -/
  memory : ∀ space x, a.caches.at? (.memory space) = some x →
    x.row ∈ rows ∧ x.space = space ∧ x.slot.entry = .unbound space.name
  /-- A register slot has a row, and its entry is that of the slot's context and frame. -/
  register : ∀ bank x, a.caches.at? (.register bank) = some x →
    x.row ∈ rows ∧ x.slot.entry = ⟨x.space.name, bank.context, bank.frame⟩
  /-- What is bound to a row is what is in its slot. -/
  bound : ∀ key entry x, a.caches.bindings.get? key = some ⟨entry, x⟩ ↔
    x.row = (key, entry) ∧ ∃ p, a.caches.at? p = some x

omit [EntryTable σ] [LawfulTable σ] in
theorem target?_memory {entry : Entry} {t : Target} {space : AddressSpace}
    (h : a.target? entry = some t) (hslot : t.slot = .memory space) : t.space = space := by
  obtain ⟨-, hleads⟩ := target?_eq_some h
  cases hleads with
  | memory slot unbound => exact SlotKey.memory.inj (slot.symm.trans hslot)
  | register slot kind bank =>
      rw [slot] at hslot
      cases hslot

omit [EntryTable σ] [LawfulTable σ] in
/-- Sub-spaces of one row are in one slot. -/
theorem Matched.oneToOne {rows : List Row} (h : a.Matched rows) : a.OneToOne rows := by
  have hunique : ∀ p q x y, a.caches.at? p = some x → a.caches.at? q = some y →
      x.row = y.row → p = q := by
    intro p q x y hx hy hrow
    exact h.slot_unique hx hy (congrArg Prod.snd hrow)
  refine ⟨h.keys, ?_, ?_, ?_, ?_, ?_, h.bound⟩
  · refine List.Nodup.map_on ?_ h.keys.of_map
    intro row hrow row' hrow' hentry
    obtain ⟨p, x, hx, rfl⟩ := h.filled row hrow
    obtain ⟨q, y, hy, rfl⟩ := h.filled row' hrow'
    obtain rfl : p = q := h.slot_unique hx hy hentry
    rw [Option.some.inj (hx.symm.trans hy)]
  · rw [List.perm_ext_iff_of_nodup (h.sorted.nodup_map_spaces hunique) h.keys.of_map]
    intro row
    rw [List.mem_map]
    constructor
    · rintro ⟨x, hx, rfl⟩
      obtain ⟨p, hp⟩ := h.sorted.mem_spaces_iff.mp hx
      exact (h.home p x hp).1
    · intro hrow
      obtain ⟨p, x, hx, hrow⟩ := h.filled row hrow
      exact ⟨x, h.sorted.mem_spaces_iff.mpr ⟨p, hx⟩, hrow⟩
  · intro row hrow
    obtain ⟨p, x, hx, hrow⟩ := h.filled row hrow
    refine ⟨p, ⟨x, hx, hrow⟩, ?_⟩
    rintro q ⟨y, hy, hyrow⟩
    exact hunique q p y x hy hx (hyrow.trans hrow.symm)
  · intro space x hx
    obtain ⟨hmem, t, hslot, ht⟩ := h.home _ x hx
    have hspace : t.space = space := target?_memory ht.target hslot
    refine ⟨hmem, ?_, ?_⟩
    · rw [ht.built]
      exact hspace
    · rw [ht.entry_eq]
      unfold Target.entry
      rw [hslot, hspace]
  · intro bank x hx
    obtain ⟨hmem, t, hslot, ht⟩ := h.home _ x hx
    have hspace : x.space = t.space := congrArg SubSpace.space ht.built
    refine ⟨hmem, ?_⟩
    rw [ht.entry_eq, hspace]
    unfold Target.entry
    rw [hslot]

/-- **In every state that a run can reach, rows and slots correspond one to one.** -/
theorem run_oneToOne (orderly : Orderly settings trace) (empty : LawfulTable.Holds table [])
    (proper : ∀ c ∈ calls, c.Proper trace.contexts)
    (sentinel :
      ((start settings table trace).2.run calls).trace.directory.find? noAddressName = none) :
    ∃ rows, (EntryTable.rows ((start settings table trace).2.run calls).table).1 = .ok rows ∧
      ((start settings table trace).2.run calls).OneToOne rows := by
  obtain ⟨rows, holds, matched⟩ := (run_kempt orderly empty proper sentinel).matched
  exact ⟨rows, LawfulTable.rows_eq holds, matched.oneToOne⟩

/-- Calls that make a memory slot, a register slot, the sentinel's slot and the slot of a
container, and load and reload them. -/
def manyCalls : List Call := [
  .ask (.space ⟨2, "ram", .memory, none⟩) true, .ask (.context .main 0) true,
  .ask (.register (.frame .main 3)) true, .invalidate, .ask (.space .noAddress) true, .load,
  .ask (.frame (.object .single)) true, .ask (.request { space := .noAddress }) false, .invalidate]

theorem run_oneToOne_manyCalls :
    ∃ rows, (EntryTable.rows ((start { name := "Memory" } ({ name := "MemorySpaces" } : MemoryTable)
      .single).2.run manyCalls).table).1 = .ok rows ∧
      ((start { name := "Memory" } ({ name := "MemorySpaces" } : MemoryTable)
        .single).2.run manyCalls).OneToOne rows :=
  run_oneToOne orderly_single (MemoryTable.holds_nil "MemorySpaces") (by decide) (by decide)

end TraceAtlas.Atlas
