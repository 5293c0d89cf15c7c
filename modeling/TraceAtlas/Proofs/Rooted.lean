import TraceAtlas.Proofs.Orderly
import TraceAtlas.Proofs.OwnRows
import TraceAtlas.Proofs.SharedTable

/-!
# Sub-spaces stay with their rows

When others write to the table, rows and slots no longer correspond: there can be several rows for
one slot, and rows that were not loaded yet. What remains is that a registry does not lose hold of
what it has. `Rooted` says of every slot whose sub-space has a row that leads there: the row is one
that the table shows, and it is bound to the sub-space, so that a load comes upon the sub-space
again.

That survives loads that fail, for a load only binds rows that were not bound before, and prunes
bindings only when it has placed all that could be placed. Which of several rows for one slot has
the last word is up to `lastFor?`.
-/

namespace TraceAtlas.Atlas

variable {σ : Type} {a b c start : Atlas σ} {rows front : List Row} {p : SlotKey} {x : SubSpace}

/-! ## The last row for a slot -/

/-- The slot that the rows of an entry lead to. -/
def slot? (a : Atlas σ) (entry : Entry) : Option SlotKey := (a.target? entry).map (·.slot)

/-- The last of some rows that leads to a slot. -/
def lastFor? (a : Atlas σ) (rows : List Row) (p : SlotKey) : Option Row :=
  rows.reverse.find? fun row => decide (a.slot? row.2 = some p)

theorem SameWorld.slot?_eq (h : SameWorld a b) (entry : Entry) : b.slot? entry = a.slot? entry := by
  unfold slot?
  rw [h.target?_eq]

theorem lastFor?_eq_some_iff {row : Row} : a.lastFor? rows p = some row ↔
    a.slot? row.2 = some p ∧
      ∃ front back, rows = front ++ row :: back ∧ ∀ row' ∈ back, a.slot? row'.2 ≠ some p := by
  unfold lastFor?
  rw [List.find?_eq_some_iff_append]
  simp only [decide_eq_true_eq, Bool.not_eq_eq_eq_not, Bool.not_true, decide_eq_false_iff_not]
  refine and_congr_right fun _ => ?_
  constructor
  · rintro ⟨back, front, hrows, hback⟩
    refine ⟨front.reverse, back.reverse, ?_, by simpa using hback⟩
    rw [← List.reverse_reverse rows, hrows]
    simp
  · rintro ⟨front, back, rfl, hback⟩
    exact ⟨back.reverse, front.reverse, by simp, by simpa using hback⟩

theorem lastFor?_eq_none_iff : a.lastFor? rows p = none ↔ ∀ row ∈ rows, a.slot? row.2 ≠ some p := by
  simp [lastFor?, List.find?_eq_none]

theorem isSome_resolve?_of_slot? {entry : Entry} (h : a.slot? entry = some p) :
    (a.resolve? entry.space).isSome = true := by
  obtain ⟨t, ht, -⟩ := Option.map_eq_some_iff.mp h
  rw [(target?_eq_some ht).1]
  rfl

theorem resolve?_of_slot? {entry : Entry} {space : AddressSpace}
    (h : a.slot? entry = some (.memory space)) : a.resolve? entry.space = some space := by
  obtain ⟨t, ht, hslot⟩ := Option.map_eq_some_iff.mp h
  obtain ⟨hresolve, hleads⟩ := target?_eq_some ht
  cases hleads with
  | memory slot unbound =>
      obtain rfl : t.space = space := SlotKey.memory.inj (slot.symm.trans hslot)
      exact hresolve
  | register slot kind bank =>
      rw [slot] at hslot
      cases hslot

/-! ## What a load places -/

theorem slot?_of_placement? {before : List Row} {row : Row} {q : Placement}
    (h : a.placement? before row = some q) : a.slot? row.2 = some q.slot := by
  obtain ⟨t, ht, h⟩ := Option.bind_eq_some_iff.mp h
  unfold slot?
  rw [ht]
  split at h
  · cases h
    rfl
  · split at h <;> cases h
    rfl

/-- What is placed for a row was built for it. -/
theorem row_of_placement? (truthful : a.caches.Truthful) {before : List Row} {row : Row}
    {q : Placement} (h : a.placement? before row = some q) : q.bound.space.row = row := by
  obtain ⟨t, ht, h⟩ := Option.bind_eq_some_iff.mp h
  split at h
  · next hbound =>
      cases h
      exact truthful.row_eq hbound
  · split at h <;> cases h
    rfl

/-- A row that is bound is placed with what it is bound to. -/
theorem placement?_of_bound {row : Row} (hslot : a.slot? row.2 = some p)
    (hbound : a.caches.binding? row.1 row.2 = some x) (before : List Row) :
    a.placement? before row = some ⟨p, ⟨row.1, row.2, x⟩⟩ := by
  obtain ⟨t, ht, rfl⟩ := Option.map_eq_some_iff.mp hslot
  simp [placement?, ht, hbound]

theorem placement?_of_reliable (reliable : a.trace.factory.Reliable) {row : Row}
    (hslot : a.slot? row.2 = some p) (before : List Row) :
    ∃ q, a.placement? before row = some q ∧ q.slot = p := by
  obtain ⟨t, ht, rfl⟩ := Option.map_eq_some_iff.mp hslot
  have hfault : a.fault? before = none := reliable _
  unfold placement?
  rw [ht]
  cases hbound : a.caches.binding? row.1 row.2 <;> simp [hfault]

theorem mem_placements_of_bound {row : Row} (hrow : row ∈ rows) (hslot : a.slot? row.2 = some p)
    (hbound : a.caches.binding? row.1 row.2 = some x) :
    (⟨p, ⟨row.1, row.2, x⟩⟩ : Placement) ∈ a.placements [] rows := by
  obtain ⟨front, back, rfl⟩ := List.append_of_mem hrow
  rw [placements_append, placements, placement?_of_bound hslot hbound]
  simp

/-- What is placed for the last row that leads to a slot stays there. -/
theorem Loaded.at?_of_last {back : List Row} {row : Row} {q : Placement}
    (h : Loaded a start (front ++ row :: back) c) (hplace : a.placement? front row = some q)
    (hback : ∀ row' ∈ back, a.slot? row'.2 ≠ some q.slot) :
    c.caches.at? q.slot = some q.bound.space := by
  rw [h.caches, Caches.at?_putAll_eq_some_iff]
  refine .inl ⟨a.placements [] front, q, a.placements ([] ++ front ++ [row]) back, ?_, rfl, rfl, ?_⟩
  · rw [placements_append, placements, List.nil_append, hplace]
    rfl
  · intro q' hq'
    obtain ⟨mid, row', rest, rfl, hplace'⟩ := Atlas.mem_placements hq'
    intro hsame
    exact hback row' (by simp) (hsame ▸ slot?_of_placement? hplace')

/-- The last row for a slot has its sub-space put there, if it is bound to one. -/
theorem Loaded.at?_of_lastFor? (h : Loaded a start rows c)
    (hlast : a.lastFor? rows p = some x.row)
    (hbound : a.caches.binding? x.slot.key x.slot.entry = some x) : c.caches.at? p = some x := by
  obtain ⟨hslot, front, back, rfl, hback⟩ := lastFor?_eq_some_iff.mp hlast
  exact h.at?_of_last (placement?_of_bound hslot hbound front) hback

/-- If the factory does not fail, the last row for a slot has some sub-space put there. -/
theorem Loaded.exists_at?_of_lastFor? (h : Loaded a start rows c) (truthful : a.caches.Truthful)
    (reliable : a.trace.factory.Reliable) {row : Row} (hlast : a.lastFor? rows p = some row) :
    ∃ y, c.caches.at? p = some y ∧ y.row = row := by
  obtain ⟨hslot, front, back, rfl, hback⟩ := lastFor?_eq_some_iff.mp hlast
  obtain ⟨q, hplace, rfl⟩ := placement?_of_reliable reliable hslot front
  exact ⟨_, h.at?_of_last hplace hback, row_of_placement? truthful hplace⟩

/-- A slot that no row leads to is left alone. -/
theorem Loaded.at?_of_lastFor?_eq_none (h : Loaded a start rows c)
    (hlast : a.lastFor? rows p = none) : c.caches.at? p = start.caches.at? p := by
  rw [h.caches]
  rcases Caches.at?_putAll_cases start.caches (a.placements [] rows) p with
    ⟨q, hq, rfl, -⟩ | ⟨-, hat⟩
  · obtain ⟨front, row, back, rfl, hplace⟩ := Atlas.mem_placements hq
    exact absurd (slot?_of_placement? hplace) (lastFor?_eq_none_iff.mp hlast row (by simp))
  · exact hat

theorem Loaded.binding?_of_mem (h : Loaded a start rows c) (keys : (rows.map Prod.fst).Nodup)
    {q : Placement} (hq : q ∈ a.placements [] rows) :
    c.caches.binding? q.bound.key q.bound.entry = some q.bound.space := by
  rw [Caches.binding?_eq_some_iff, h.caches]
  exact Caches.get?_bindings_putAll ((keys_placements_sublist a [] rows).nodup keys) hq

/-- A load does not take the binding from a row that the table has. -/
theorem Loaded.binding?_kept (h : Loaded a start front c) (keys : (rows.map Prod.fst).Nodup)
    (hfront : front.Sublist rows) {row : Row} (hrow : row ∈ rows)
    (hbound : a.caches.binding? row.1 row.2 = some x) :
    c.caches.binding? row.1 row.2 = some x := by
  by_cases hkey : row.1 ∈ (a.placements [] front).map (·.bound.key)
  · obtain ⟨q, hq, hqkey⟩ := List.mem_map.mp hkey
    obtain ⟨before, row', after, rfl, hplace⟩ := Atlas.mem_placements hq
    -- a key stands for one row of the table
    obtain ⟨hkey', hentry'⟩ := placement?_row hplace
    have hmem : row' ∈ rows := hfront.subset (by simp)
    obtain rfl : row' = row :=
      List.inj_on_of_nodup_map keys hmem hrow (hkey'.symm.trans hqkey)
    rw [placement?_of_bound (slot?_of_placement? hplace) hbound] at hplace
    have hnow := h.binding?_of_mem ((hfront.map Prod.fst).nodup keys) hq
    rw [← Option.some.inj hplace] at hnow
    exact hnow
  · rw [Caches.binding?_eq_some_iff] at hbound ⊢
    rw [h.caches, Caches.get?_bindings_putAll_of_not_mem hkey, h.bindings, hbound]

end TraceAtlas.Atlas

namespace TraceAtlas

/-! ## The invariant -/

/-- The directory has a space under the name of the register space, which is of register kind. -/
structure HasRegisters (settings : Settings) (d : Directory) : Prop where
  kind : settings.language.registerSpace.isRegister = true
  found : (d.find? settings.language.registerSpace.name).isSome = true

theorem Orderly.hasRegisters {settings : Settings} {trace : Trace} (h : Orderly settings trace) :
    HasRegisters settings trace.directory := by
  refine ⟨h.isRegister, ?_⟩
  rw [h.registers]
  rfl

theorem HasRegisters.of_extends {settings : Settings} {d e : Directory}
    (h : HasRegisters settings d) (grown : d.Extends e) : HasRegisters settings e := by
  obtain ⟨space, hspace⟩ := Option.isSome_iff_exists.mp h.found
  refine ⟨h.kind, ?_⟩
  rw [grown.find? _ _ hspace]
  rfl

namespace Atlas

variable {σ : Type} {a b c s start : Atlas σ} {rows front more : List Row} {p : SlotKey}
  {x : SubSpace}

/-- A sub-space is anchored at a slot by some rows: its own row is one of them, leads to the slot
and is bound to it. -/
structure Anchored (a : Atlas σ) (rows : List Row) (p : SlotKey) (x : SubSpace) : Prop where
  leads : a.slot? x.slot.entry = some p
  shown : x.row ∈ rows
  bound : a.caches.binding? x.slot.key x.slot.entry = some x

/-- A sub-space that is in the slot that its row leads to is anchored there. -/
structure Rooted (a : Atlas σ) (rows : List Row) : Prop where
  home : ∀ p x, a.caches.at? p = some x → a.slot? x.slot.entry = some p → a.Anchored rows p x
  /-- No row starts to lead to its slot because an overlay is minted: the space of its entry is
  known already, or the slot is that of a space of the sentinel's kind, which no overlay is. -/
  settled : ∀ p x, a.caches.at? p = some x →
    (a.resolve? x.slot.entry.space).isSome = true ∨
      ∃ space : AddressSpace, p = .memory space ∧ space.isNoAddress = true

theorem rooted_empty (h : ∀ p, a.caches.at? p = none) (rows : List Row) : a.Rooted rows where
  home p x hx := by
    rw [h] at hx
    cases hx
  settled p x hx := by
    rw [h] at hx
    cases hx

theorem Anchored.of_world (ha : a.Anchored rows p x) (h : SameWorld a b)
    (caches : b.caches = a.caches) : b.Anchored rows p x := by
  refine ⟨?_, ha.shown, ?_⟩
  · rw [h.slot?_eq]
    exact ha.leads
  · rw [caches]
    exact ha.bound

theorem Rooted.of_world (ha : a.Rooted rows) (h : SameWorld a b) (caches : b.caches = a.caches) :
    b.Rooted rows where
  home p x hx hslot := by
    rw [caches] at hx
    rw [h.slot?_eq] at hslot
    exact (ha.home p x hx hslot).of_world h caches
  settled p x hx := by
    rw [caches] at hx
    rw [h.resolve?_eq]
    exact ha.settled p x hx

theorem Anchored.mono (ha : a.Anchored rows p x) (h : rows ⊆ more) : a.Anchored more p x :=
  ⟨ha.leads, h ha.shown, ha.bound⟩

theorem Rooted.mono (ha : a.Rooted rows) (h : rows ⊆ more) : a.Rooted more :=
  ⟨fun p x hx hslot => (ha.home p x hx hslot).mono h, ha.settled⟩

/-! ## Lookups -/

theorem Minted.slot?_of_known {name : String} (h : Minted a name b) {entry : Entry}
    (hknown : (a.resolve? entry.space).isSome = true) : b.slot? entry = a.slot? entry := by
  unfold slot?
  rw [h.target?_of_known hknown]

/-- A slot of the sentinel's kind is not led to by the name of an overlay of the register space. -/
theorem Minted.slot?_ne {name : String} (h : Minted a name b)
    (kind : a.settings.language.registerSpace.isRegister = true) {entry : Entry}
    (hunknown : a.resolve? entry.space = none) {space : AddressSpace}
    (hspace : space.isNoAddress = true) : b.slot? entry ≠ some (.memory space) := by
  intro hslot
  obtain ⟨t, ht, hslot⟩ := Option.map_eq_some_iff.mp hslot
  obtain ⟨hresolve, hleads⟩ := target?_eq_some ht
  have hregister : t.space.isRegister = true := by
    unfold resolve? at hunknown hresolve
    split at hunknown
    · cases hunknown
    · next hname =>
        rw [if_neg hname, h.idle.find?_eq] at hresolve
        change (a.trace.directory.mint name _).find? _ = _ at hresolve
        rw [Directory.find?_mint, hunknown] at hresolve
        split at hresolve
        · rw [← Option.some.inj hresolve]
          exact kind
        · cases hresolve
  cases hleads with
  | memory slot unbound =>
      obtain rfl : t.space = space := SlotKey.memory.inj (slot.symm.trans hslot)
      simp only [AddressSpace.isNoAddress, AddressSpace.isRegister, beq_iff_eq] at hspace hregister
      rw [hspace] at hregister
      cases hregister
  | register slot kind bank =>
      rw [slot] at hslot
      cases hslot

theorem Anchored.of_minted {name : String} (ha : a.Anchored rows p x) (h : Minted a name b) :
    b.Anchored rows p x := by
  refine ⟨?_, ha.shown, ?_⟩
  · rw [h.slot?_of_known (isSome_resolve?_of_slot? ha.leads)]
    exact ha.leads
  · rw [h.idle.caches]
    exact ha.bound

theorem Rooted.of_minted {name : String} (ha : a.Rooted rows) (h : Minted a name b)
    (kind : a.settings.language.registerSpace.isRegister = true) : b.Rooted rows := by
  have hcaches : b.caches = a.caches := h.idle.caches
  refine ⟨?_, ?_⟩
  · intro p x hx hslot
    rw [hcaches] at hx
    by_cases hknown : (a.resolve? x.slot.entry.space).isSome = true
    · rw [h.slot?_of_known hknown] at hslot
      exact (ha.home p x hx hslot).of_minted h
    · rcases ha.settled p x hx with hsettled | ⟨space, rfl, hspace⟩
      · exact absurd hsettled hknown
      · exact absurd hslot (h.slot?_ne kind (by simpa using hknown) hspace)
  · intro p x hx
    rw [hcaches] at hx
    refine (ha.settled p x hx).imp_left ?_
    intro hknown
    rw [h.resolve?_of_known hknown, hknown]

/-- What a lookup names is known, or it is of the sentinel's kind. -/
theorem Names.settled {q : Query} {t : Target} (h : a.Names q t)
    (registers : HasRegisters a.settings a.trace.directory) :
    (a.resolve? t.entry.space).isSome = true ∨
      ∃ space : AddressSpace, t.slot = .memory space ∧ space.isNoAddress = true := by
  have hspace : ∀ space : AddressSpace, a.trace.directory.Admits space →
      (a.resolve? space.name).isSome = true ∨
        ∃ s : AddressSpace, SlotKey.memory space = .memory s ∧ s.isNoAddress = true := by
    intro space hadmits
    by_cases hno : space.isNoAddress = true
    · exact .inr ⟨space, rfl, hno⟩
    · refine .inl ?_
      unfold resolve?
      split
      · rfl
      · rw [hadmits.find?_eq (by simpa using hno)]
        rfl
  cases h with
  | space named admitted => exact hspace _ admitted
  | container found admitted => exact hspace _ admitted
  | bank contexts owned =>
      refine .inl ?_
      show (a.resolve? a.settings.language.registerSpace.name).isSome = true
      unfold resolve?
      split
      · rfl
      · exact registers.found

/-- A slot is filled for a new row, which takes no binding from another one. -/
theorem Anchored.put (ha : a.Anchored rows p x) (h : SameWorld a b) {bound : Bound} {q : SlotKey}
    (hkey : bound.key ∉ rows.map Prod.fst) (caches : b.caches = a.caches.put bound q) :
    b.Anchored (rows ++ [(bound.key, bound.entry)]) p x := by
  refine ⟨?_, List.mem_append_left _ ha.shown, ?_⟩
  · rw [h.slot?_eq]
    exact ha.leads
  · have hne : x.slot.key ≠ bound.key := by
      intro hsame
      rw [← hsame] at hkey
      exact hkey (List.mem_map_of_mem ha.shown)
    rw [caches, Caches.binding?_eq_some_iff, Caches.bindings_put,
      SortedMap.get?_insert_of_ne _ _ hne]
    exact Caches.binding?_eq_some_iff.mp ha.bound

theorem Rooted.put (ha : a.Rooted rows) (h : SameWorld a b) {key : RowKey} {entry : Entry}
    (hx : x.row = (key, entry)) (hkey : key ∉ rows.map Prod.fst)
    (hsettled : (a.resolve? entry.space).isSome = true ∨
      ∃ space : AddressSpace, p = .memory space ∧ space.isNoAddress = true)
    (caches : b.caches = a.caches.put ⟨key, entry, x⟩ p) : b.Rooted (rows ++ [(key, entry)]) := by
  obtain ⟨rfl, rfl⟩ := Prod.mk.inj hx
  refine ⟨?_, ?_⟩
  · intro q y hy hslot
    rw [caches, Caches.at?_put] at hy
    split at hy
    · cases hy
      refine ⟨hslot, by simp [SubSpace.row], ?_⟩
      rw [caches, Caches.binding?_eq_some_iff, Caches.bindings_put, SortedMap.get?_insert_self]
    · rw [h.slot?_eq] at hslot
      exact (ha.home q y hy hslot).put h hkey caches
  · intro q y hy
    rw [caches, Caches.at?_put] at hy
    rw [h.resolve?_eq]
    split at hy
    · next hq =>
        cases hy
        rw [hq]
        exact hsettled
    · exact ha.settled q y hy

/-! ## Loads -/

/-- What is in a slot after a load was placed there for its row, or was there before. -/
theorem Loaded.at?_cases (h : Loaded a start rows c) (truthful : a.caches.Truthful)
    (hx : c.caches.at? p = some x) :
    (a.slot? x.slot.entry = some p ∧ x.row ∈ rows ∧
      (⟨p, ⟨x.slot.key, x.slot.entry, x⟩⟩ : Placement) ∈ a.placements [] rows) ∨
    start.caches.at? p = some x := by
  rw [h.caches] at hx
  rcases Caches.at?_putAll_cases start.caches (a.placements [] rows) p with
    ⟨q, hq, rfl, hat⟩ | ⟨-, hat⟩
  · obtain rfl : q.bound.space = x := Option.some.inj (hat.symm.trans hx)
    obtain ⟨before, row, after, rfl, hplace⟩ := Atlas.mem_placements hq
    obtain ⟨hkey, hentry⟩ := placement?_row hplace
    have hrow := row_of_placement? truthful hplace
    obtain rfl : row = (q.bound.key, q.bound.entry) := by rw [hkey, hentry]
    obtain ⟨hkey', hentry'⟩ := Prod.mk.inj hrow
    refine .inl ⟨?_, ?_, ?_⟩
    · rw [hentry']
      exact slot?_of_placement? hplace
    · rw [hrow]
      simp
    · rw [hkey', hentry']
      exact hq
  · exact .inr (hat.symm.trans hx)

/-- What a load can leave when it reads `rows`. -/
inductive Fetched (a start : Atlas σ) (rows : List Row) : Atlas σ → Prop
  /-- All rows are loaded, and the bindings of those that were not placed are dropped. -/
  | whole {c : Atlas σ} (loaded : Loaded a start rows c) :
      Fetched a start rows
        (c.withCaches (c.caches.keepBindings ((a.placements [] rows).map (·.bound.key))))
  /-- The rows in front are loaded, and the load is refused at the next one. -/
  | part {c b : Atlas σ} {front back : List Row} (rows_eq : rows = front ++ back)
      (loaded : Loaded a start front c) (kept : Kept c b) (caches : b.caches = c.caches) :
      Fetched a start rows b

theorem Fetched.table_eq (h : Fetched a start rows b) : b.table = start.table := by
  cases h with
  | whole loaded => exact loaded.table
  | part rows_eq loaded kept caches => exact kept.table.trans loaded.table

theorem Anchored.of_loaded (ha : a.Anchored rows p x) (h : Loaded a start front c)
    (hrows : rows ⊆ more) (keys : (more.map Prod.fst).Nodup) (hfront : front.Sublist more) :
    c.Anchored more p x := by
  refine ⟨?_, hrows ha.shown, h.binding?_kept keys hfront (hrows ha.shown) ha.bound⟩
  rw [h.world.slot?_eq]
  exact ha.leads

theorem Anchored.keepBindings {kept : List RowKey} (ha : a.Anchored rows p x)
    (hkey : x.slot.key ∈ kept) : (a.withCaches (a.caches.keepBindings kept)).Anchored rows p x := by
  refine ⟨ha.leads, ha.shown, ?_⟩
  rw [Caches.binding?_eq_some_iff]
  show (a.caches.keepBindings kept).bindings.get? _ = _
  rw [Caches.get?_bindings_keepBindings, if_pos hkey]
  exact Caches.binding?_eq_some_iff.mp ha.bound

/-- The row of what is anchored is placed, so that a load keeps its binding. -/
theorem Anchored.mem_keys (ha : a.Anchored rows p x) :
    x.slot.key ∈ (a.placements [] rows).map (·.bound.key) :=
  List.mem_map.mpr ⟨_, mem_placements_of_bound ha.shown ha.leads ha.bound, rfl⟩

theorem Anchored.of_fetched (ha : a.Anchored rows p x) (h : Fetched a start more b)
    (hrows : rows ⊆ more) (keys : (more.map Prod.fst).Nodup) : b.Anchored more p x := by
  cases h with
  | whole loaded =>
      exact (ha.of_loaded loaded hrows keys (.refl more)).keepBindings (ha.mono hrows).mem_keys
  | part rows_eq loaded kept caches =>
      have hfront := rows_eq ▸ List.sublist_append_left _ _
      exact (ha.of_loaded loaded hrows keys hfront).of_world kept.toSameWorld caches

/-- Loading some of the rows of a table, on top of all slots or of none. -/
theorem Rooted.of_loaded (ha : a.Rooted rows) (truthful : a.caches.Truthful)
    (h : Loaded a start front c)
    (hslots : ∀ p x, start.caches.at? p = some x → a.caches.at? p = some x) (hrows : rows ⊆ more)
    (keys : (more.map Prod.fst).Nodup) (hfront : front.Sublist more) : c.Rooted more where
  home p x hx hslot := by
    rcases h.at?_cases truthful hx with ⟨-, hrow, hmem⟩ | hstart
    · have hfrontkeys := (hfront.map Prod.fst).nodup keys
      exact ⟨hslot, hfront.subset hrow, h.binding?_of_mem hfrontkeys hmem⟩
    · rw [h.world.slot?_eq] at hslot
      exact (ha.home p x (hslots p x hstart) hslot).of_loaded h hrows keys hfront
  settled p x hx := by
    rw [h.world.resolve?_eq]
    rcases h.at?_cases truthful hx with ⟨hslot, -⟩ | hstart
    · exact .inl (isSome_resolve?_of_slot? hslot)
    · exact ha.settled p x (hslots p x hstart)

/-- **A load, refused or not, leaves sub-spaces with their rows,** be it on top of all slots or of
none. -/
theorem Rooted.of_fetched (ha : a.Rooted rows) (truthful : a.caches.Truthful)
    (h : Fetched a start more b)
    (hslots : ∀ p x, start.caches.at? p = some x → a.caches.at? p = some x) (hrows : rows ⊆ more)
    (keys : (more.map Prod.fst).Nodup) : b.Rooted more := by
  cases h with
  | @whole c loaded =>
      have hc := ha.of_loaded truthful loaded hslots hrows keys (.refl more)
      refine ⟨?_, fun p x hx => hc.settled p x ((Caches.at?_keepBindings _ _ p).symm.trans hx)⟩
      intro p x hx hslot
      have hx : c.caches.at? p = some x := (Caches.at?_keepBindings _ _ p).symm.trans hx
      refine (hc.home p x hx hslot).keepBindings ?_
      -- no binding that is dropped is that of a sub-space in its slot
      rcases loaded.at?_cases truthful hx with ⟨-, -, hmem⟩ | hstart
      · exact List.mem_map.mpr ⟨_, hmem, rfl⟩
      · change c.slot? x.slot.entry = some p at hslot
        rw [loaded.world.slot?_eq] at hslot
        exact ((ha.home p x (hslots p x hstart) hslot).mono hrows).mem_keys
  | part rows_eq loaded kept caches =>
      have hfront := rows_eq ▸ List.sublist_append_left _ _
      have hc := ha.of_loaded truthful loaded hslots hrows keys hfront
      exact hc.of_world kept.toSameWorld caches

variable [EntryTable σ]

/-- **A load puts a sub-space that is bound to its row where the row leads,** if the row has the
last word there. -/
theorem at?_loadTable_of_bound (world : SameWorld a s)
    (bindings : s.caches.bindings = a.caches.bindings) (factory : s.trace.factory = a.trace.factory)
    (read : (EntryTable.rows s.table).1 = .ok rows) (keys : (rows.map Prod.fst).Nodup)
    (done : s.loadTable.1 = .ok ()) (last : a.lastFor? rows p = some x.row)
    (bound : a.caches.binding? x.slot.key x.slot.entry = some x) :
    s.loadTable.2.caches.at? p = some x := by
  obtain ⟨c, hloaded, hresult⟩ := loadTable_loaded world bindings factory read keys done
  rw [hresult]
  show (c.caches.keepBindings _).at? p = some x
  rw [Caches.at?_keepBindings]
  exact hloaded.at?_of_lastFor? last bound

/-- A load leaves a slot alone that no row leads to. -/
theorem at?_loadTable_of_none (read : (EntryTable.rows a.table).1 = .ok rows)
    (keys : (rows.map Prod.fst).Nodup) (done : a.loadTable.1 = .ok ())
    (unled : a.lastFor? rows p = none) : a.loadTable.2.caches.at? p = a.caches.at? p := by
  obtain ⟨c, hloaded, hresult⟩ := loadTable_loaded (.refl a) rfl rfl read keys done
  rw [hresult]
  show (c.caches.keepBindings _).at? p = _
  rw [Caches.at?_keepBindings]
  exact hloaded.at?_of_lastFor?_eq_none unled

variable [SharedTable σ]

/-- What a load reads and leaves, refused or not. -/
theorem fetched_loadTable (world : SameWorld a s) (bindings : s.caches.bindings = a.caches.bindings)
    (factory : s.trace.factory = a.trace.factory) (shows : SharedTable.Shows s.table rows) :
    Fetched a { s with table := (EntryTable.rows s.table).2 } rows s.loadTable.2 ∧
      SharedTable.Shows s.loadTable.2.table rows := by
  have read := SharedTable.rows_eq shows
  have keys := SharedTable.keys shows
  have hfetched :
      Fetched a { s with table := (EntryTable.rows s.table).2 } rows s.loadTable.2 := by
    cases hdone : s.loadTable.1 with
    | ok u =>
        obtain ⟨c, hloaded, hresult⟩ := loadTable_loaded world bindings factory read keys hdone
        rw [hresult]
        exact .whole hloaded
    | error e =>
        obtain ⟨front, row, back, c, hrows, hloaded, hrow⟩ :=
          loadTable_refused world bindings factory read keys hdone
        cases hrow with
        | refused target unbound planned version kept caches count =>
            exact .part hrows hloaded kept caches
  refine ⟨hfetched, ?_⟩
  rw [hfetched.table_eq]
  exact SharedTable.rows_shows shows

/-! ## Filling a slot of a shared table -/

/-- What filling a slot makes of the rows that the table shows. -/
inductive Added (a : Atlas σ) (t : Target) (rows : List Row) (b : Atlas σ) : List Row → Prop
  | nothing (caches : b.caches = a.caches) : Added a t rows b rows
  /-- The row is there, but nothing is bound to it. -/
  | row {key : RowKey} (fresh : key ∉ rows.map Prod.fst) (caches : b.caches = a.caches) :
      Added a t rows b (rows ++ [(key, t.entry)])
  | space {key : RowKey} {x : SubSpace} (fresh : key ∉ rows.map Prod.fst)
      (row : x.row = (key, t.entry)) (caches : b.caches = a.caches.put ⟨key, t.entry, x⟩ t.slot) :
      Added a t rows b (rows ++ [(key, t.entry)])

theorem Filled.added {t : Target} {r : Except SpaceError (Option SubSpace)} (h : Filled a t r b)
    (shows : SharedTable.Shows a.table rows) :
    ∃ more, SharedTable.Shows b.table more ∧ Added a t rows b more := by
  cases h with
  | held held => exact ⟨rows, shows, .nothing rfl⟩
  | noRow empty create nothing idle =>
      refine ⟨rows, ?_, .nothing idle.caches⟩
      rw [idle.table]
      exact SharedTable.refused_shows shows create
  | noSpace empty create planned nothing kept caches plan count =>
      obtain ⟨hkey, hshows⟩ := SharedTable.create_shows shows create
      refine ⟨_, ?_, .row hkey caches⟩
      rw [kept.table]
      exact hshows
  | made empty create planned kept caches plan count =>
      obtain ⟨hkey, hshows⟩ := SharedTable.create_shows shows create
      refine ⟨_, ?_, .space hkey (row_subSpace a _ t _ t.entry) caches⟩
      rw [kept.table]
      exact hshows

end Atlas
end TraceAtlas
