import Mathlib.Data.List.Basic
import Mathlib.Data.List.Nodup
import TraceAtlas.Proofs.Placements

/-!
# What a reload means

`Atlas.invalidate` empties the slots and fills them from the rows of the table. `Reloaded` says what
that comes to, row by row and slot by slot, in terms of the atlas before the call: which rows are
skipped, which sub-space serves each of the others, and which row has the last word on a slot.

The slots are empty when the rows are placed, so `loadRows_loaded` determines them. What is left to
show is that `placements` passes over the skipped rows and no others.
-/

namespace TraceAtlas.Atlas

variable {σ : Type}

theorem sameWorld_forgetAll (a : Atlas σ) : SameWorld a a.forgetAll := ⟨rfl, rfl, rfl, rfl, rfl⟩

theorem sameWorld_clear [EntryTable σ] (a : Atlas σ) : SameWorld a a.clear :=
  ⟨rfl, rfl, rfl, rfl, rfl⟩

/-! ## Skipped rows and the others -/

/-- A reload of `a` passes over the row of `key` and `entry` that stands behind the rows `before`.
-/
inductive Skipped (a : Atlas σ) (before : List Row) (key : RowKey) (entry : Entry) : Prop
  | unresolved (unknown : a.resolve? entry.space = none)
  /-- The space is of register kind, and the registry knows no contexts. -/
  | noContexts {space : AddressSpace} (resolved : a.resolve? entry.space = some space)
      (register : space.isRegister = true) (contexts : a.settings.contexts = false)
  /-- The row is a register bank of a context that is not known. -/
  | unknownContext {space : AddressSpace} (resolved : a.resolve? entry.space = some space)
      (register : space.isRegister = true) (bank : entry.context ≠ Entry.noContext)
      (unknown : a.context? entry.context = none)
  /-- The factory is asked for the sub-space and fails, not for the schema's sake. -/
  | notBuilt {t : Target} {fault : Fault} (target : a.target? entry = some t)
      (unbound : a.caches.binding? key entry = none) (planned : a.fault? before = some fault)
      (harmless : (fault.error (a.slotOf t.space key entry).table).isVersion = false)

/-- The sub-space that serves a row behind the rows `before`: the one that was bound to it under the
entry it has, else the one that the factory builds next. -/
def served (a : Atlas σ) (before : List Row) (t : Target) (key : RowKey) (entry : Entry) :
    SubSpace :=
  match a.caches.binding? key entry with
  | some x => x
  | none => a.subSpace (a.nextSerial before) t key entry

/-- The row of `key` and `entry` behind the rows `before` is not skipped; it belongs at `t`, where
`x` serves it. -/
structure Placed (a : Atlas σ) (before : List Row) (key : RowKey) (entry : Entry) (t : Target)
    (x : SubSpace) : Prop where
  notSkipped : ¬ a.Skipped before key entry
  target : a.target? entry = some t
  served : x = a.served before t key entry

variable {a : Atlas σ}

/-- A row belongs nowhere exactly for one of the first three reasons to skip it. -/
theorem skipped_of_target?_eq_none {entry : Entry} (h : a.target? entry = none)
    (before : List Row) (key : RowKey) : a.Skipped before key entry := by
  unfold target? at h
  cases hspace : a.resolve? entry.space with
  | none => exact .unresolved hspace
  | some space =>
      simp only [hspace] at h
      by_cases hregister : space.isRegister = true
      · by_cases hcontexts : a.settings.contexts = true
        · simp only [hregister, hcontexts, if_true] at h
          unfold Entry.context? at h
          by_cases hbank : entry.context = Entry.noContext
          · simp [hbank] at h
          · simp only [hbank, if_false, Option.map_eq_none_iff] at h
            exact .unknownContext hspace hregister hbank h
        · exact .noContexts hspace hregister (by simpa using hcontexts)
      · simp [hregister] at h

theorem target?_eq_none_of_noContexts {entry : Entry} {space : AddressSpace}
    (resolved : a.resolve? entry.space = some space) (register : space.isRegister = true)
    (contexts : a.settings.contexts = false) : a.target? entry = none := by
  simp [target?, resolved, register, contexts]

theorem target?_eq_none_of_unknownContext {entry : Entry} {space : AddressSpace}
    (resolved : a.resolve? entry.space = some space) (register : space.isRegister = true)
    (bank : entry.context ≠ Entry.noContext) (unknown : a.context? entry.context = none) :
    a.target? entry = none := by
  simp [target?, resolved, register, Entry.context?, bank, unknown]

theorem Skipped.placement?_eq_none {before : List Row} {key : RowKey} {entry : Entry}
    (h : a.Skipped before key entry) : a.placement? before (key, entry) = none := by
  unfold placement?
  rw [Option.bind_eq_none_iff]
  intro t ht
  cases h with
  | unresolved unknown => simp [target?, unknown] at ht
  | noContexts resolved register contexts =>
      rw [target?_eq_none_of_noContexts resolved register contexts] at ht
      cases ht
  | unknownContext resolved register bank unknown =>
      rw [target?_eq_none_of_unknownContext resolved register bank unknown] at ht
      cases ht
  | notBuilt target unbound planned harmless => simp [unbound, planned]

/-- In a load that is not refused, a row that is not skipped is placed, served as `served` says. -/
theorem placement?_of_not_skipped {before : List Row} {key : RowKey} {entry : Entry}
    (harmless : a.Harmless before (key, entry)) (h : ¬ a.Skipped before key entry) :
    ∃ t, a.target? entry = some t ∧ a.placement? before (key, entry) =
      some ⟨t.slot, ⟨key, entry, a.served before t key entry⟩⟩ := by
  cases ht : a.target? entry with
  | none => exact absurd (skipped_of_target?_eq_none ht before key) h
  | some t =>
      refine ⟨t, rfl, ?_⟩
      unfold placement? served
      simp only [ht, Option.bind_some]
      cases hbound : a.caches.binding? key entry with
      | some x => rfl
      | none =>
          cases hfault : a.fault? before with
          | none => rfl
          | some fault =>
              exact absurd (.notBuilt ht hbound hfault (harmless t fault ht hbound hfault)) h

theorem placement?_eq_some_iff {before : List Row} {key : RowKey} {entry : Entry}
    (harmless : a.Harmless before (key, entry)) {p : Placement} :
    a.placement? before (key, entry) = some p ↔
      ∃ t x, a.Placed before key entry t x ∧ p = ⟨t.slot, ⟨key, entry, x⟩⟩ := by
  constructor
  · intro hp
    have hnot : ¬ a.Skipped before key entry := by
      intro hskipped
      rw [hskipped.placement?_eq_none] at hp
      cases hp
    obtain ⟨t, ht, hplace⟩ := placement?_of_not_skipped harmless hnot
    rw [hplace] at hp
    exact ⟨t, _, ⟨hnot, ht, rfl⟩, (Option.some.inj hp).symm⟩
  · rintro ⟨t, x, hplaced, rfl⟩
    obtain ⟨t', ht, hplace⟩ := placement?_of_not_skipped harmless hplaced.notSkipped
    obtain rfl : t' = t := Option.some.inj (ht.symm.trans hplaced.target)
    rw [hplace, hplaced.served]

/-! ## A load of the whole table -/

theorem loadTable_eq_fill [EntryTable σ] {s : Atlas σ} {rows : List Row}
    (read : (EntryTable.rows s.table).1 = .ok rows) :
    s.loadTable = fill { s with table := (EntryTable.rows s.table).2 } rows := by
  unfold loadTable readRows
  simp only [read, settle]

theorem Loaded.init_table {s : Atlas σ} (world : SameWorld a s)
    (bindings : s.caches.bindings = a.caches.bindings)
    (factory : s.trace.factory = a.trace.factory) (table : σ) :
    Loaded a { s with table } [] { s with table } :=
  .init ⟨world.settings, world.contexts, world.schema, world.nodes, world.directory⟩ bindings
    factory

/-- What a load does when the table answers `rows` and nothing is refused. It starts from `s`, which
may lack the slots of `a`. -/
theorem loadTable_loaded [EntryTable σ] {s : Atlas σ} (world : SameWorld a s)
    (bindings : s.caches.bindings = a.caches.bindings)
    (factory : s.trace.factory = a.trace.factory) {rows : List Row}
    (read : (EntryTable.rows s.table).1 = .ok rows) (keys : (rows.map Prod.fst).Nodup)
    (done : s.loadTable.1 = .ok ()) :
    ∃ c, Loaded a { s with table := (EntryTable.rows s.table).2 } rows c ∧
      s.loadTable.2 = c.withCaches
        (c.caches.keepBindings ((a.placements [] rows).map (·.bound.key))) := by
  have hinit := Loaded.init_table world bindings factory (EntryTable.rows s.table).2
  rw [loadTable_eq_fill read] at done ⊢
  unfold fill at done ⊢
  revert done
  cases hload : loadRows { s with table := (EntryTable.rows s.table).2 } rows with
  | mk r c =>
      cases r with
      | error e =>
          intro done
          cases done
      | ok placed =>
          intro _
          obtain ⟨hloaded, rfl⟩ := loadRows_loaded hinit keys hload
          exact ⟨c, hloaded, rfl⟩

/-- What a refused load of the same kind does: it places the rows in front of one that the factory
finds under another version of the schema. -/
theorem loadTable_refused [EntryTable σ] {s : Atlas σ} (world : SameWorld a s)
    (bindings : s.caches.bindings = a.caches.bindings)
    (factory : s.trace.factory = a.trace.factory) {rows : List Row}
    (read : (EntryTable.rows s.table).1 = .ok rows) (keys : (rows.map Prod.fst).Nodup)
    {e : SpaceError} (refused : s.loadTable.1 = .error e) :
    ∃ front row back c, rows = front ++ row :: back ∧
      Loaded a { s with table := (EntryTable.rows s.table).2 } front c ∧
      RowLoaded c row.1 row.2 (.error e) s.loadTable.2 := by
  have hinit := Loaded.init_table world bindings factory (EntryTable.rows s.table).2
  rw [loadTable_eq_fill read] at refused ⊢
  unfold fill at refused ⊢
  revert refused
  cases hload : loadRows { s with table := (EntryTable.rows s.table).2 } rows with
  | mk r c =>
      cases r with
      | error e' =>
          intro refused
          cases refused
          exact loadRows_refused hinit keys hload
      | ok placed =>
          intro refused
          cases refused

/-! ## The meaning of a reload -/

/-- No row behind the rows `before` has a say on `slot`: each is skipped or belongs elsewhere. -/
def Silent (a : Atlas σ) (slot : SlotKey) (before after : List Row) : Prop :=
  ∀ mid key entry rest, after = mid ++ (key, entry) :: rest →
    a.Skipped (before ++ mid) key entry ∨ ∀ t, a.target? entry = some t → t.slot ≠ slot

/-- `b` is what reloading `a` from `rows` comes to. -/
structure Reloaded (a : Atlas σ) (rows : List Row) (b : Atlas σ) : Prop where
  /-- A row is left without a sub-space exactly if it is skipped. -/
  skipped : ∀ before key entry after, rows = before ++ (key, entry) :: after →
    (b.caches.bindings.get? key = none ↔ a.Skipped before key entry)
  /-- Every other row is bound, under the entry it has, to the sub-space that serves it. -/
  bound : ∀ before key entry after t x, rows = before ++ (key, entry) :: after →
    a.Placed before key entry t x → b.caches.bindings.get? key = some ⟨entry, x⟩
  unbound : ∀ key, key ∉ rows.map Prod.fst → b.caches.bindings.get? key = none
  /-- A slot holds what serves the last row that belongs there and is not skipped; if there is no
  such row, the slot is empty. -/
  slots : ∀ slot x, b.caches.at? slot = some x ↔
    ∃ before key entry after t, rows = before ++ (key, entry) :: after ∧
      a.Placed before key entry t x ∧ t.slot = slot ∧ a.Silent slot (before ++ [(key, entry)]) after
  /-- Nothing is known any more of what was found through objects. -/
  byObject : b.registry.byObject = .empty
  /-- Every sub-space in a slot was told to forget what it had read. -/
  forgotten : b.trace.factory.forgotten =
    b.caches.spaces.map (·.serial) ++ a.trace.factory.forgotten

variable {rows : List Row} {start c : Atlas σ}

/-- A key stands for one place in a list of rows. -/
theorem eq_of_append_cons_of_nodup {l l' r r' : List Row} {row row' : Row}
    (keys : ((l ++ row :: r).map Prod.fst).Nodup) (h : l ++ row :: r = l' ++ row' :: r')
    (hkey : row.1 = row'.1) : l = l' ∧ row = row' := by
  rw [List.map_append, List.map_cons, List.nodup_middle, List.nodup_cons, List.mem_append,
    not_or] at keys
  obtain ⟨⟨hl, hr⟩, -⟩ := keys
  have hnotl : row' ∉ l := fun hmem => hl (hkey ▸ List.mem_map_of_mem hmem)
  have hnotr : row' ∉ r := fun hmem => hr (hkey ▸ List.mem_map_of_mem hmem)
  obtain ⟨hfront, hrow, -⟩ := (List.append_cons_inj_of_notMem hnotl hnotr).mp h
  exact ⟨hfront, hrow⟩

/-- Rows that are placed in a load are told by what they are placed with. -/
theorem Loaded.mem_placements (h : Loaded a start rows c) {before after : List Row} {key : RowKey}
    {entry : Entry} {t : Target} {x : SubSpace} (hrows : rows = before ++ (key, entry) :: after)
    (hplaced : a.Placed before key entry t x) :
    (⟨t.slot, ⟨key, entry, x⟩⟩ : Placement) ∈ a.placements [] rows := by
  have hp := (placement?_eq_some_iff (h.harmless before _ after hrows)).mpr ⟨t, x, hplaced, rfl⟩
  rw [hrows, placements_append, placements]
  simp [hp]

/-- After a load every placed row is bound to the sub-space that serves it. -/
theorem Loaded.get?_bindings (h : Loaded a start rows c) (keys : (rows.map Prod.fst).Nodup)
    {before after : List Row} {key : RowKey} {entry : Entry} {t : Target} {x : SubSpace}
    (hrows : rows = before ++ (key, entry) :: after) (hplaced : a.Placed before key entry t x) :
    c.caches.bindings.get? key = some ⟨entry, x⟩ := by
  have hnodup := (keys_placements_sublist a [] rows).nodup keys
  rw [h.caches]
  exact Caches.get?_bindings_putAll hnodup (h.mem_placements hrows hplaced)

theorem Loaded.mem_keys_iff (h : Loaded a start rows c) (keys : (rows.map Prod.fst).Nodup)
    {before after : List Row} {key : RowKey} {entry : Entry}
    (hrows : rows = before ++ (key, entry) :: after) :
    key ∈ (a.placements [] rows).map (·.bound.key) ↔ ¬ a.Skipped before key entry := by
  constructor
  · intro hkey
    obtain ⟨p, hp, hpkey⟩ := List.mem_map.mp hkey
    obtain ⟨front, row, back, hsplit, hplace⟩ := Atlas.mem_placements hp
    have hrow : row.1 = key := (placement?_row hplace).1.symm.trans hpkey
    have hunique : before = front ∧ (key, entry) = row := by
      rw [hrows] at hsplit keys
      exact eq_of_append_cons_of_nodup keys hsplit hrow.symm
    obtain ⟨rfl, rfl⟩ := hunique
    intro hskipped
    rw [List.nil_append, hskipped.placement?_eq_none] at hplace
    cases hplace
  · intro hnot
    obtain ⟨t, ht, -⟩ := placement?_of_not_skipped (h.harmless before _ after hrows) hnot
    exact List.mem_map_of_mem (f := fun p : Placement => p.bound.key)
      (h.mem_placements hrows ⟨hnot, ht, rfl⟩)

/-- After a load on empty slots, a slot holds what serves the last row with a say on it. -/
theorem Loaded.at?_eq_some_iff (h : Loaded a start rows c)
    (hempty : ∀ slot, start.caches.at? slot = none) {slot : SlotKey} {x : SubSpace} :
    c.caches.at? slot = some x ↔
      ∃ before key entry after t, rows = before ++ (key, entry) :: after ∧
        a.Placed before key entry t x ∧ t.slot = slot ∧
        a.Silent slot (before ++ [(key, entry)]) after := by
  rw [h.caches, Caches.at?_putAll_eq_some_iff]
  constructor
  · rintro (⟨l, p, r, hsplit, rfl, rfl, hlast⟩ | ⟨hx, -⟩)
    · obtain ⟨before, ⟨key, entry⟩, after, hrows, -, hplace, rfl⟩ :=
        placements_eq_append_cons hsplit
      rw [List.nil_append] at hplace hlast
      obtain ⟨t, x, hplaced, rfl⟩ :=
        (placement?_eq_some_iff (h.harmless before _ after hrows)).mp hplace
      refine ⟨before, key, entry, after, t, hrows, hplaced, rfl, ?_⟩
      intro mid key' entry' rest hafter
      rw [or_iff_not_imp_left]
      intro hnot t' ht' hslot
      -- a later row with a say on the slot would have left a later placement
      have hharmless : a.Harmless (before ++ [(key, entry)] ++ mid) (key', entry') :=
        h.harmless _ _ rest (by simp [hrows, hafter])
      obtain ⟨q, hq, hqslot⟩ : ∃ q, a.placement? (before ++ [(key, entry)] ++ mid) (key', entry') =
          some q ∧ q.slot = t'.slot :=
        ⟨_, (placement?_eq_some_iff hharmless).mpr ⟨t', _, ⟨hnot, ht', rfl⟩, rfl⟩, rfl⟩
      refine hlast q ?_ (hqslot.trans hslot)
      rw [hafter, placements_append, placements, hq]
      simp
    · rw [hempty] at hx
      cases hx
  · rintro ⟨before, key, entry, after, t, hrows, hplaced, rfl, hsilent⟩
    have hplace :=
      (placement?_eq_some_iff (h.harmless before _ after hrows)).mpr ⟨t, x, hplaced, rfl⟩
    refine .inl ⟨a.placements [] before, ⟨t.slot, ⟨key, entry, x⟩⟩,
      a.placements (before ++ [(key, entry)]) after, ?_, rfl, rfl, ?_⟩
    · rw [hrows, placements_append, List.nil_append, placements, hplace]
      rfl
    · -- nothing behind the placement is for its slot
      intro q hq
      obtain ⟨mid, ⟨key', entry'⟩, rest, hafter, hq⟩ := Atlas.mem_placements hq
      obtain ⟨t', x', hplaced', rfl⟩ := (placement?_eq_some_iff
        (h.harmless (before ++ [(key, entry)] ++ mid) _ rest (by simp [hrows, hafter]))).mp hq
      rcases hsilent mid key' entry' rest hafter with hskipped | hother
      · exact absurd hskipped hplaced'.notSkipped
      · exact hother t' hplaced'.target

variable [EntryTable σ]

/-- Refused or not, a reload leaves in the slots what its load left there. -/
theorem invalidate_caches (a : Atlas σ) :
    a.invalidate.2.caches = a.clear.loadTable.2.caches := by
  unfold invalidate
  generalize a.clear.loadTable = answer
  obtain ⟨r, b⟩ := answer
  cases r with
  | error e => exact (idle_report b).caches
  | ok u => exact (idle_report b.forgetAll).caches

theorem invalidate_fst (a : Atlas σ) : a.invalidate.1 = a.clear.loadTable.1 := by
  unfold invalidate
  generalize a.clear.loadTable = answer
  obtain ⟨r, b⟩ := answer
  cases r <;> rfl

theorem invalidate_snd_of_ok (done : a.clear.loadTable.1 = .ok ()) :
    a.invalidate.2 = a.clear.loadTable.2.forgetAll.report := by
  unfold invalidate
  revert done
  generalize a.clear.loadTable = answer
  obtain ⟨r, b⟩ := answer
  rintro rfl
  rfl

/-- **A reload that reads the table and is not refused means what `Reloaded` says.** -/
theorem invalidate_reloaded (a : Atlas σ) {rows : List Row}
    (read : (EntryTable.rows (EntryTable.invalidate a.table)).1 = .ok rows)
    (keys : (rows.map Prod.fst).Nodup) (done : a.invalidate.1 = .ok ()) :
    Reloaded a rows a.invalidate.2 := by
  rw [invalidate_fst] at done
  have hresult := invalidate_snd_of_ok done
  obtain ⟨c, hloaded, hload⟩ := loadTable_loaded (sameWorld_clear a) rfl rfl read keys done
  have hidle := idle_report a.clear.loadTable.2.forgetAll
  have hcaches : a.invalidate.2.caches =
      c.caches.keepBindings ((a.placements [] rows).map (·.bound.key)) := by
    rw [invalidate_caches, hload]
    rfl
  have hbindings : ∀ key, a.invalidate.2.caches.bindings.get? key =
      if key ∈ (a.placements [] rows).map (·.bound.key) then c.caches.bindings.get? key
      else none := by
    intro key
    rw [hcaches, Caches.get?_bindings_keepBindings]
  refine ⟨?_, ?_, ?_, ?_, ?_, ?_⟩
  · intro before key entry after hrows
    rw [hbindings]
    constructor
    · -- a row that is not skipped is placed, and its binding is kept
      intro hnone
      by_contra hnot
      obtain ⟨t, ht, -⟩ := placement?_of_not_skipped (hloaded.harmless before _ after hrows) hnot
      rw [if_pos ((hloaded.mem_keys_iff keys hrows).mpr hnot),
        hloaded.get?_bindings keys hrows ⟨hnot, ht, rfl⟩] at hnone
      cases hnone
    · intro hskipped
      rw [if_neg]
      rw [hloaded.mem_keys_iff keys hrows]
      exact not_not_intro hskipped
  · intro before key entry after t x hrows hplaced
    rw [hbindings, if_pos ((hloaded.mem_keys_iff keys hrows).mpr hplaced.notSkipped)]
    exact hloaded.get?_bindings keys hrows hplaced
  · intro key hkey
    rw [hbindings, if_neg]
    intro hmem
    exact hkey ((keys_placements_sublist a [] rows).subset hmem)
  · -- the load started on empty slots
    intro slot x
    rw [hcaches, Caches.at?_keepBindings]
    exact hloaded.at?_eq_some_iff fun slot => Caches.at?_clearSlots a.caches slot
  · rw [hresult, hidle.byObject]
    show a.clear.loadTable.2.registry.byObject = _
    rw [hload]
    exact hloaded.byObject
  · have hforgotten : c.trace.factory.forgotten = a.trace.factory.forgotten := hloaded.forgotten
    rw [hresult, hidle.forgotten, hidle.caches]
    show a.clear.loadTable.2.caches.spaces.map _ ++ a.clear.loadTable.2.trace.factory.forgotten =
      a.clear.loadTable.2.caches.spaces.map _ ++ _
    rw [hload, ← hforgotten]
    rfl

/-- A registry whose table has two rows for one register bank, rows of an unknown space and of an
unknown context, and whose factory fails on its third request. -/
def crowded : Atlas MemoryTable where
  registry := { settings := { name := "Memory" } }
  table := { name := "MemorySpaces", nextKey := 6, stored := ⟨[
    (0, ⟨"register", 5, 0⟩), (1, ⟨"ghost", -1, 0⟩), (2, ⟨"ram", -1, 0⟩),
    (3, ⟨"register", 9, 0⟩), (4, ⟨"register", 5, 0⟩), (5, ⟨"NO_ADDRESS_SPACE", -1, 0⟩)]⟩ }
  trace := {
    contexts := ⟨[(5, { key := 5, name := "main" })]⟩
    factory := { plan := [none, none, some .io] } }

theorem invalidate_reloaded_crowded :
    Reloaded crowded crowded.table.rows crowded.invalidate.2 :=
  invalidate_reloaded crowded rfl (by decide) rfl

end TraceAtlas.Atlas
