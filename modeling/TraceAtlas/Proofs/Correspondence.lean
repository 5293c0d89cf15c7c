import TraceAtlas.Proofs.LawfulTable
import TraceAtlas.Proofs.Orderly

/-!
# Rows and slots correspond

As long as a registry is the only writer of its table and its surroundings are orderly, the rows
of the table and the sub-spaces in the slots are two views of one thing. `Matched` is the
invariant: every slot holds a sub-space at home there, every row has a slot, and bindings say the
same as slots.

It survives the filling of a slot because the new row's target is the slot that was empty, and a
load because every row is bound and is put where its sub-space is already. The two meet in
`Names.target?_eq`.
-/

namespace TraceAtlas.Atlas

variable {σ : Type} {a b : Atlas σ}

/-- `x` is what the factory builds for the target's own entry, and the entry leads to the target. -/
structure AtHome (a : Atlas σ) (t : Target) (x : SubSpace) : Prop where
  target : a.target? t.entry = some t
  built : x = a.subSpace x.serial t x.slot.key t.entry

/-- The slots of `a` match `rows`. -/
structure Matched (a : Atlas σ) (rows : List Row) : Prop where
  keys : (rows.map Prod.fst).Nodup
  home : ∀ p x, a.caches.at? p = some x → x.row ∈ rows ∧ ∃ t, t.slot = p ∧ a.AtHome t x
  filled : ∀ row ∈ rows, ∃ p x, a.caches.at? p = some x ∧ x.row = row
  bound : ∀ key entry x, a.caches.bindings.get? key = some ⟨entry, x⟩ ↔
    x.row = (key, entry) ∧ ∃ p, a.caches.at? p = some x
  sorted : a.caches.Sorted

variable {rows : List Row}

theorem AtHome.entry_eq {t : Target} {x : SubSpace} (h : a.AtHome t x) : x.slot.entry = t.entry :=
  congrArg (·.slot.entry) h.built

theorem Matched.slot_unique (h : a.Matched rows) {p q : SlotKey} {x y : SubSpace}
    (hx : a.caches.at? p = some x) (hy : a.caches.at? q = some y)
    (hentry : x.slot.entry = y.slot.entry) : p = q := by
  obtain ⟨-, t, rfl, ht⟩ := h.home p x hx
  obtain ⟨-, u, rfl, hu⟩ := h.home q y hy
  have htu : t.entry = u.entry := ht.entry_eq.symm.trans (hentry.trans hu.entry_eq)
  have hsame : some t = some u := by
    rw [← ht.target, ← hu.target, htu]
  rw [Option.some.inj hsame]

/-- What is in the slots is all that `Matched` is about, apart from where entries belong. -/
theorem Matched.of_slots (h : a.Matched rows) (slots : ∀ p, b.caches.at? p = a.caches.at? p)
    (bindings : ∀ key, b.caches.bindings.get? key = a.caches.bindings.get? key)
    (sorted : b.caches.Sorted) (name : b.settings.name = a.settings.name)
    (targets : ∀ entry t, a.target? entry = some t → b.target? entry = some t) :
    b.Matched rows where
  keys := h.keys
  home p x hx := by
    rw [slots] at hx
    obtain ⟨hmem, t, hslot, ht⟩ := h.home p x hx
    refine ⟨hmem, t, hslot, targets _ _ ht.target, ?_⟩
    rw [subSpace_congr name]
    exact ht.built
  filled row hrow := by
    obtain ⟨p, x, hx, hrow⟩ := h.filled row hrow
    exact ⟨p, x, (slots p).trans hx, hrow⟩
  bound key entry x := by
    rw [bindings, h.bound]
    simp only [slots]
  sorted := sorted

theorem Matched.of_world (h : a.Matched rows) (hworld : SameWorld a b)
    (caches : b.caches = a.caches) :
    b.Matched rows := by
  apply h.of_slots
  · intro p
    rw [caches]
  · intro key
    rw [caches]
  · rw [caches]
    exact h.sorted
  · rw [hworld.settings]
  · intro entry t ht
    exact (hworld.target?_eq entry).trans ht

theorem matched_nil (caches : a.caches = {}) : a.Matched [] where
  keys := List.nodup_nil
  home p x hx := by
    rw [caches] at hx
    cases p <;> cases hx
  filled row hrow := by cases hrow
  bound key entry x := by
    rw [caches]
    constructor
    · intro hget
      cases hget
    · rintro ⟨-, p, hp⟩
      cases p <;> cases hp
  sorted := by
    rw [caches]
    exact Caches.sorted_empty

/-! ## Filling a slot -/

/-- An empty slot is filled for a new row whose entry leads there. -/
theorem Matched.put (h : a.Matched rows) {t : Target} {key : RowKey} {serial : Nat}
    (hworld : SameWorld a b) (htarget : a.target? t.entry = some t)
    (hempty : a.caches.at? t.slot = none) (hkey : key ∉ rows.map Prod.fst)
    (caches : b.caches = a.caches.put ⟨key, t.entry, a.subSpace serial t key t.entry⟩ t.slot) :
    b.Matched (rows ++ [(key, t.entry)]) := by
  have hat : ∀ p, b.caches.at? p =
      if p = t.slot then some (a.subSpace serial t key t.entry) else a.caches.at? p := by
    intro p
    rw [caches, Caches.at?_put]
  have hother : ∀ {p x}, a.caches.at? p = some x → b.caches.at? p = some x := by
    intro p x hx
    rw [hat, if_neg, hx]
    rintro rfl
    rw [hempty] at hx
    cases hx
  refine ⟨nodup_keys_concat h.keys hkey t.entry, ?_, ?_, ?_, ?_⟩
  -- every slot is home to what it holds
  · intro p x hx
    rw [hat] at hx
    split at hx
    · next hp =>
        cases hx
        refine ⟨by simp, t, hp.symm, (hworld.target?_eq _).trans htarget, ?_⟩
        rw [hworld.subSpace_eq]
        rfl
    · obtain ⟨hmem, u, hslot, hu⟩ := h.home p x hx
      refine ⟨List.mem_append_left _ hmem, u, hslot, (hworld.target?_eq _).trans hu.target, ?_⟩
      rw [hworld.subSpace_eq]
      exact hu.built
  -- every row has a slot
  · intro row hrow
    rcases List.mem_append.mp hrow with hrow | hrow
    · obtain ⟨p, x, hx, hrow⟩ := h.filled row hrow
      exact ⟨p, x, hother hx, hrow⟩
    · rw [List.mem_singleton] at hrow
      refine ⟨t.slot, a.subSpace serial t key t.entry, ?_, hrow.symm⟩
      rw [hat, if_pos rfl]
  -- bindings say the same as slots
  · intro key' entry x
    rw [caches, Caches.bindings_put, SortedMap.get?_insert, ← caches]
    constructor
    · split
      · next hkey' =>
          intro hget
          cases hget
          refine ⟨by rw [hkey']; rfl, t.slot, ?_⟩
          rw [hat, if_pos rfl]
      · intro hget
        obtain ⟨hrow, p, hp⟩ := (h.bound key' entry x).mp hget
        exact ⟨hrow, p, hother hp⟩
    · rintro ⟨hrow, p, hp⟩
      rw [hat] at hp
      split at hp
      · cases hp
        cases hrow
        exact if_pos rfl
      · have hmem := (h.home p x hp).1
        rw [if_neg]
        · exact (h.bound key' entry x).mpr ⟨hrow, p, hp⟩
        · rintro rfl
          rw [hrow] at hmem
          exact hkey (List.mem_map_of_mem hmem)
  · rw [caches]
    exact h.sorted.put _ _

/-! ## Loading -/

/-- A load places every row where it is. -/
theorem Matched.placement?_eq (h : a.Matched rows) (before : List Row) {row : Row}
    (hrow : row ∈ rows) :
    ∃ p x, a.caches.at? p = some x ∧ x.row = row ∧
      a.placement? before row = some ⟨p, ⟨row.1, row.2, x⟩⟩ := by
  obtain ⟨p, x, hx, rfl⟩ := h.filled row hrow
  obtain ⟨-, t, rfl, ht⟩ := h.home p x hx
  have hbound : a.caches.binding? x.slot.key x.slot.entry = some x := by
    rw [Caches.binding?_eq_some_iff, h.bound]
    exact ⟨rfl, t.slot, hx⟩
  have htarget : a.target? x.slot.entry = some t := by
    rw [ht.entry_eq]
    exact ht.target
  refine ⟨t.slot, x, hx, rfl, ?_⟩
  unfold placement?
  simp only [SubSpace.row, htarget, hbound, Option.bind_some]

theorem Matched.of_mem_placements (h : a.Matched rows) {q : Placement}
    (hq : q ∈ a.placements [] rows) :
    a.caches.at? q.slot = some q.bound.space ∧
      q.bound.space.row = (q.bound.key, q.bound.entry) := by
  obtain ⟨front, row, back, hrows, hplace⟩ := mem_placements hq
  have hrow : row ∈ rows := by
    rw [hrows]
    simp
  obtain ⟨p, x, hx, rfl, hp⟩ := h.placement?_eq ([] ++ front) hrow
  rw [hp] at hplace
  cases hplace
  exact ⟨hx, rfl⟩

theorem Matched.exists_mem_placements (h : a.Matched rows) {row : Row} (hrow : row ∈ rows) :
    ∃ q ∈ a.placements [] rows, q.bound.space.row = row := by
  obtain ⟨front, back, hrows⟩ := List.append_of_mem hrow
  obtain ⟨p, x, hx, hxrow, hp⟩ := h.placement?_eq ([] ++ front) hrow
  refine ⟨⟨p, ⟨row.1, row.2, x⟩⟩, ?_, hxrow⟩
  rw [hrows, placements_append, placements, hp]
  simp

variable {start c : Atlas σ}

/-- A load on top of some of the slots leaves all of them as they are. -/
theorem Matched.at?_eq_of_loaded (h : a.Matched rows) (hloaded : Loaded a start rows c)
    (hslots : ∀ p x, start.caches.at? p = some x → a.caches.at? p = some x) (p : SlotKey) :
    c.caches.at? p = a.caches.at? p := by
  rw [hloaded.caches]
  rcases Caches.at?_putAll_cases start.caches (a.placements [] rows) p with
    ⟨q, hq, rfl, hat⟩ | ⟨hnone, hat⟩
  · rw [hat]
    exact (h.of_mem_placements hq).1.symm
  · rw [hat]
    cases hx : a.caches.at? p with
    | none =>
        rw [Option.eq_none_iff_forall_ne_some]
        intro x hstart
        rw [hslots p x hstart] at hx
        cases hx
    | some x =>
        -- the row of `x` is placed, and nowhere but in the slot of `x`
        obtain ⟨q, hq, hqrow⟩ := h.exists_mem_placements (h.home p x hx).1
        have hentry : q.bound.space.slot.entry = x.slot.entry := congrArg Prod.snd hqrow
        exact absurd (h.slot_unique (h.of_mem_placements hq).1 hx hentry) (hnone q hq)

theorem Matched.bindings_eq_of_loaded (h : a.Matched rows) (hloaded : Loaded a start rows c)
    (key : RowKey) :
    (c.caches.keepBindings ((a.placements [] rows).map (·.bound.key))).bindings.get? key =
      a.caches.bindings.get? key := by
  rw [Caches.get?_bindings_keepBindings]
  split
  · next hkey =>
      obtain ⟨q, hq, rfl⟩ := List.mem_map.mp hkey
      have hnodup := (keys_placements_sublist a [] rows).nodup h.keys
      obtain ⟨hx, hrow⟩ := h.of_mem_placements hq
      rw [hloaded.caches, Caches.get?_bindings_putAll hnodup hq]
      exact ((h.bound _ _ _).mpr ⟨hrow, q.slot, hx⟩).symm
  · next hkey =>
      cases hget : a.caches.bindings.get? key with
      | none => rfl
      | some b =>
          obtain ⟨hrow, p, hp⟩ := (h.bound key b.entry b.space).mp hget
          obtain ⟨q, hq, hqrow⟩ := h.exists_mem_placements (h.home p b.space hp).1
          have hqkey : q.bound.key = key := by
            have hsame := (h.of_mem_placements hq).2.symm.trans (hqrow.trans hrow)
            exact congrArg Prod.fst hsame
          exact absurd (List.mem_map.mpr ⟨q, hq, hqkey⟩) hkey

variable [EntryTable σ] [LawfulTable σ]

/-- `b` is what a load of the table made of `s`, which was `a` with all of its slots or with none:
everything is as it was in `a`. -/
structure Refilled (a s : Atlas σ) (rows : List Row) (b : Atlas σ) : Prop where
  world : SameWorld a b
  byObject : b.registry.byObject = s.registry.byObject
  reliable : b.trace.factory.Reliable
  holds : LawfulTable.Holds b.table rows
  slots : ∀ p, b.caches.at? p = a.caches.at? p
  matched : b.Matched rows

theorem Matched.loadTable (h : a.Matched rows) {s : Atlas σ} (hworld : SameWorld a s)
    (bindings : s.caches.bindings = a.caches.bindings) (factory : s.trace.factory = a.trace.factory)
    (reliable : a.trace.factory.Reliable)
    (hslots : ∀ p x, s.caches.at? p = some x → a.caches.at? p = some x) (sorted : s.caches.Sorted)
    (holds : LawfulTable.Holds s.table rows) :
    s.loadTable.1 = .ok () ∧ Refilled a s rows s.loadTable.2 := by
  have hread := LawfulTable.rows_eq holds
  have hdone : s.loadTable.1 = .ok () := loadTable_ok (factory ▸ reliable) hread
  obtain ⟨c, hloaded, hresult⟩ := loadTable_loaded hworld bindings factory hread h.keys hdone
  refine ⟨hdone, ?_⟩
  rw [hresult]
  have hat : ∀ p, (c.caches.keepBindings ((a.placements [] rows).map (·.bound.key))).at? p =
      a.caches.at? p := by
    intro p
    rw [Caches.at?_keepBindings]
    exact h.at?_eq_of_loaded hloaded hslots p
  have hsame := hloaded.world.trans (sameWorld_withCaches c
    (c.caches.keepBindings ((a.placements [] rows).map (·.bound.key))))
  refine ⟨hsame, hloaded.byObject, ?_, ?_, hat, ?_⟩
  · intro n
    show c.trace.factory.fault? n = none
    unfold Factory.fault?
    rw [hloaded.plan, List.getElem?_drop]
    exact reliable _
  · show LawfulTable.Holds c.table rows
    rw [hloaded.table]
    exact LawfulTable.rows_holds holds
  · have hsorted : c.caches.Sorted := by
      rw [hloaded.caches]
      exact Caches.Sorted.putAll sorted _
    refine h.of_slots hat (h.bindings_eq_of_loaded hloaded) (hsorted.keepBindings _) ?_ ?_
    · rw [hsame.settings]
    · intro entry t ht
      exact (hsame.target?_eq entry).trans ht

end TraceAtlas.Atlas
