import TraceAtlas.Proofs.ObjectCache
import TraceAtlas.Proofs.Races

/-!
# Reloads among lookups through objects

A lookup through an object has the slot of the container filled in one section and keeps what it
found there in the next. In an `ObjectRace` any number of such lookups take turns, and in between
others reload the registry or remove rows from its table. A reload that comes between those two
sections may drop the sub-space that the lookup has in hand, which the lookup then keeps all the
same.

`run_objectsHeld` says that nothing else can go wrong: if every sub-space that is in hand at the
last reload still has its row, all that is kept for objects is in the slots of the overlays.
`OnTheWay` is what a lookup can count on at the stage it has reached, whatever the others do, and
`WellSeated` what slots and rows have to do with each other; a row that was removed never comes
back, so a sub-space is where its row leads for as long as it has one.
-/

namespace TraceAtlas

/-! ## Tables in key order -/

namespace MemoryTable

variable {t : MemoryTable}

/-- The rows stand in key order, in front of the next key. -/
structure InOrder (t : MemoryTable) : Prop where
  increasing : t.rows.Pairwise fun r r' => r.1 < r'.1
  below : ∀ row ∈ t.rows, row.1 < t.nextKey

theorem inOrder_nil (name : String) : InOrder { name } := ⟨.nil, by simp [rows, SortedMap.empty]⟩

theorem InOrder.keys (h : t.InOrder) : (t.rows.map Prod.fst).Nodup :=
  List.pairwise_map.mpr (h.increasing.imp Nat.ne_of_lt)

theorem InOrder.rows_create (h : t.InOrder) (e : Entry) :
    (t.create e).2.rows = t.rows ++ [(t.nextKey, e)] := (holds_create ⟨rfl, h.below⟩ e).2.stored

theorem InOrder.create (h : t.InOrder) (e : Entry) : (t.create e).2.InOrder where
  increasing := by
    rw [h.rows_create, List.pairwise_append]
    refine ⟨h.increasing, List.pairwise_singleton _ _, ?_⟩
    intro row hrow new hnew
    rw [List.mem_singleton.mp hnew]
    exact h.below row hrow
  below := (h.rows_create e).symm ▸ (holds_create ⟨rfl, h.below⟩ e).2.below

theorem rows_remove_sublist (t : MemoryTable) (key : RowKey) :
    (t.remove key).2.rows.Sublist t.rows := List.filter_sublist

theorem InOrder.remove (h : t.InOrder) (key : RowKey) : (t.remove key).2.InOrder where
  increasing := h.increasing.sublist (t.rows_remove_sublist key)
  below row hrow := h.below row ((t.rows_remove_sublist key).subset hrow)

end MemoryTable

/-! ## Sections -/

/-- What a lookup has found for an object and not kept yet. -/
def Stage.hand? : Stage → Option (ObjectSlot × SubSpace)
  | .found object frame x => some (⟨object.id, frame⟩, x)
  | _ => none

/-- The next section of a lookup through an object, which may create or not. -/
def Atlas.proceed {σ : Type} [EntryTable σ] (a : Atlas σ) (create : Bool) :
    Stage → Stage × Atlas σ
  | .contained object frame container =>
    match a.containerSpace container create with
    | (.error e, a) => (.settled (.error e), a)
    | (.ok none, a) => (.settled (.ok none), a)
    | (.ok (some x), a) => (.found object frame x, a)
  | stage => a.advance stage

/-- The sections of a lookup that may create are those of any creating lookup. -/
theorem Atlas.proceed_true {σ : Type} [EntryTable σ] (a : Atlas σ) (stage : Stage) :
    a.proceed true stage = a.advance stage := by
  cases stage <;> rfl

structure ObjectLookup where
  create : Bool
  object : ObjectRef
  frame : UInt32
deriving DecidableEq

/-- Lookups through objects on one atlas, each with whether it may create and how far it is. -/
structure ObjectRace where
  atlas : Atlas MemoryTable
  lookups : List (Bool × Stage)

namespace ObjectRace

inductive Turn where
  /-- The `i`-th lookup runs its next section. -/
  | lookup (i : Nat)
  | reload
  /-- Somebody removes a row from the table. -/
  | remove (key : RowKey)
deriving DecidableEq

/-- All lookups are let in already. -/
def start (a : Atlas MemoryTable) (lookups : List ObjectLookup) : ObjectRace :=
  ⟨a, lookups.map fun l => (l.create, .admitted (.object l.object l.frame))⟩

def turn (race : ObjectRace) : Turn → ObjectRace
  | .lookup i =>
    match race.lookups[i]? with
    | none => race
    | some (create, stage) =>
      let (stage, a) := race.atlas.proceed create stage
      ⟨a, race.lookups.set i (create, stage)⟩
  | .reload => { race with atlas := race.atlas.invalidate.2 }
  | .remove key =>
    { race with atlas := { race.atlas with table := (race.atlas.table.remove key).2 } }

def run (race : ObjectRace) (turns : List Turn) : ObjectRace := turns.foldl turn race

end ObjectRace

/-! ## What is kept and what is in hand -/

namespace Atlas

variable {a b c : Atlas MemoryTable} {p : SlotKey} {x : SubSpace} {slot : ObjectSlot}

/-- The sub-space is in the slot of the overlay to which the object leads. -/
def InOverlay (a : Atlas MemoryTable) (slot : ObjectSlot) (x : SubSpace) : Prop :=
  ∃ space, a.overlayOf? slot = some space ∧ a.caches.at? (.memory space) = some x

/-- Whatever is kept for an object is in the slot of the overlay. -/
def ObjectsHeld (a : Atlas MemoryTable) : Prop :=
  ∀ slot x, a.registry.byObject.get? slot = some x → a.InOverlay slot x

/-- The row of the sub-space is still in the table and leads to the overlay of the object. -/
def Persisted (a : Atlas MemoryTable) (slot : ObjectSlot) (x : SubSpace) : Prop :=
  x.row ∈ a.table.rows ∧
    ∃ space ∈ a.overlayOf? slot, a.slot? x.slot.entry = some (.memory space)

instance (a : Atlas MemoryTable) (slot : ObjectSlot) (x : SubSpace) :
    Decidable (a.Persisted slot x) := inferInstanceAs (Decidable (_ ∧ _))

end Atlas

/-- Every sub-space that a lookup has in hand is persisted. -/
def ObjectRace.HandsPersisted (race : ObjectRace) : Prop :=
  ∀ l ∈ race.lookups, ∀ h ∈ l.2.hand?, race.atlas.Persisted h.1 h.2

instance (race : ObjectRace) : Decidable race.HandsPersisted :=
  inferInstanceAs (Decidable (∀ l ∈ _, _))

/-- At the last reload of a run, what lookups have in hand is persisted. -/
def ObjectRace.PersistedAtLast (race : ObjectRace) : List ObjectRace.Turn → Prop
  | [] => True
  | t :: turns =>
    (t = .reload → .reload ∉ turns → race.HandsPersisted) ∧ (race.turn t).PersistedAtLast turns

instance ObjectRace.decidablePersistedAtLast (race : ObjectRace) :
    (turns : List ObjectRace.Turn) → Decidable (race.PersistedAtLast turns)
  | [] => isTrue trivial
  | t :: turns =>
    haveI := decidablePersistedAtLast (race.turn t) turns
    inferInstanceAs (Decidable ((t = .reload → .reload ∉ turns → race.HandsPersisted) ∧
      (race.turn t).PersistedAtLast turns))

/-! ## What only becomes more -/

namespace Atlas

variable {a b c : Atlas MemoryTable} {p : SlotKey} {x : SubSpace} {slot : ObjectSlot}

/-- `b` is `a` after sections of lookups and removals: slots stay filled, and rows that are new have
keys that were never used. -/
structure Later (a b : Atlas MemoryTable) : Prop extends Grown a b where
  nextKey : a.table.nextKey ≤ b.table.nextKey
  rows : ∀ row ∈ b.table.rows, row ∈ a.table.rows ∨ a.table.nextKey ≤ row.1

theorem Later.of_grown (h : Grown a b) (table : b.table = a.table) : Later a b := by
  refine ⟨h, ?_, ?_⟩ <;> rw [table]
  exact fun row hrow => .inl hrow

theorem Later.trans (h : Later a b) (h' : Later b c) : Later a c := by
  refine ⟨h.toGrown.trans h'.toGrown, Nat.le_trans h.nextKey h'.nextKey, ?_⟩
  intro row hrow
  rcases h'.rows row hrow with hrow | hkey
  · exact h.rows row hrow
  · exact .inr (Nat.le_trans h.nextKey hkey)

theorem Grown.overlayOf?_mono (h : Grown a b) {space : AddressSpace}
    (hspace : a.overlayOf? slot = some space) : b.overlayOf? slot = some space := by
  unfold overlayOf? ObjectTree.node? at hspace ⊢
  rw [h.nodes]
  obtain ⟨node, hnode, hspace⟩ := Option.bind_eq_some_iff.mp hspace
  obtain ⟨container, hcontainer, hspace⟩ := Option.bind_eq_some_iff.mp hspace
  simp only [hnode, h.container?_eq, hcontainer, Option.bind_some]
  exact h.directory.find? _ _ hspace

theorem SameWorld.overlayOf?_eq (h : SameWorld a b) (slot : ObjectSlot) :
    b.overlayOf? slot = a.overlayOf? slot := by
  unfold overlayOf? ObjectTree.node?
  simp only [h.nodes, h.container?_eq, h.find?_eq]

theorem InOverlay.of_grown (hx : a.InOverlay slot x) (h : Grown a b) : b.InOverlay slot x := by
  obtain ⟨space, hspace, hheld⟩ := hx
  exact ⟨space, h.overlayOf?_mono hspace, h.slots _ _ hheld⟩

theorem Grown.resolve?_of_known (h : Grown a b) {name : String}
    (hknown : (a.resolve? name).isSome = true) : b.resolve? name = a.resolve? name := by
  unfold resolve? at hknown ⊢
  split
  · rfl
  · next hname =>
      rw [if_neg hname] at hknown
      obtain ⟨space, hspace⟩ := Option.isSome_iff_exists.mp hknown
      rw [hspace, h.directory.find? _ _ hspace]

theorem Grown.slot?_of_known (h : Grown a b) {entry : Entry}
    (hknown : (a.resolve? entry.space).isSome = true) : b.slot? entry = a.slot? entry := by
  unfold slot? target?
  simp only [h.resolve?_of_known hknown, h.settings, context?_congr (by rw [h.settings]) h.contexts]

/-! ## Slots and rows -/

/-- No row that leads to the slot is newer than that of the sub-space, which is bound to its row. -/
structure Leads (a : Atlas MemoryTable) (p : SlotKey) (x : SubSpace) : Prop where
  bound : a.caches.binding? x.slot.key x.slot.entry = some x
  newest : ∀ row ∈ a.table.rows, a.slot? row.2 = some p → row.1 ≤ x.slot.key

/-- What is known of a sub-space and the slot that holds it. -/
structure Seated (a : Atlas MemoryTable) (p : SlotKey) (x : SubSpace) : Prop where
  used : x.slot.key < a.table.nextKey
  known : (a.resolve? x.slot.entry.space).isSome = true
  filed : ∀ space, p = .memory space →
    a.trace.directory.find? space.name = some space ∨ space = .noAddress
  leads : ∀ space, p = .memory space → a.trace.directory.find? space.name = some space →
    a.slot? x.slot.entry = some p → a.Leads p x

/-- The rows are in order and the sub-spaces in their slots, in surroundings that fail in
nothing. -/
structure WellSeated (a : Atlas MemoryTable) : Prop where
  order : a.table.InOrder
  filed : a.trace.directory.Filed
  reliable : a.trace.factory.Reliable
  truthful : a.caches.Truthful
  seated : ∀ p x, a.caches.at? p = some x → a.Seated p x

theorem wellSeated_unloaded {settings : Settings} {table : MemoryTable} {trace : Trace}
    (order : table.InOrder) (filed : trace.directory.Filed) (reliable : trace.factory.Reliable) :
    (unloaded settings table trace).WellSeated where
  order := order
  filed := filed
  reliable := reliable
  truthful := Caches.truthful_empty
  seated p x hx := by cases p <;> cases hx

/-- In the same world a sub-space stays seated if it goes on leading. -/
theorem Seated.of_world (h : a.Seated p x) (world : SameWorld a b)
    (nextKey : a.table.nextKey ≤ b.table.nextKey)
    (leads : ∀ space, p = .memory space → a.trace.directory.find? space.name = some space →
      a.Leads p x → b.Leads p x) : b.Seated p x where
  used := Nat.lt_of_lt_of_le h.used nextKey
  known := by rw [world.resolve?_eq, h.known]
  filed space hp := by
    rw [world.find?_eq]
    exact h.filed space hp
  leads space hp hfind hslot := by
    rw [world.find?_eq] at hfind
    rw [world.slot?_eq] at hslot
    exact leads space hp hfind (h.leads space hp hfind hslot)

/-- The table may lose rows. -/
theorem WellSeated.of_world (ha : a.WellSeated) (h : SameWorld a b)
    (factory : b.trace.factory = a.trace.factory) (caches : b.caches = a.caches)
    (order : b.table.InOrder) (nextKey : b.table.nextKey = a.table.nextKey)
    (rows : b.table.rows ⊆ a.table.rows) : b.WellSeated where
  order := order
  filed name space hfind := ha.filed name space ((h.find?_eq name).symm.trans hfind)
  reliable := factory ▸ ha.reliable
  truthful := caches ▸ ha.truthful
  seated p x hx := by
    refine (ha.seated p x (caches ▸ hx)).of_world h (Nat.le_of_eq nextKey.symm) ?_
    rintro space - - ⟨bound, newest⟩
    refine ⟨caches ▸ bound, ?_⟩
    intro row hrow hslot
    rw [h.slot?_eq] at hslot
    exact newest row (rows hrow) hslot

theorem WellSeated.of_idle (ha : a.WellSeated) (h : Idle a b) : b.WellSeated :=
  ha.of_world h.toSameWorld h.factory h.caches (h.table ▸ ha.order) (by rw [h.table])
    (h.table ▸ List.Subset.refl _)

theorem Minted.find?_eq {name : String} (h : Minted a name b) (n : String) :
    b.trace.directory.find? n = if n = name then
      some (.overlay a.trace.directory.nextId name a.settings.language.registerSpace)
      else a.trace.directory.find? n := by
  rw [h.idle.find?_eq]
  exact Directory.find?_mint _ _ _ n

/-- The rows that start to lead somewhere when an overlay is minted lead to the overlay. -/
theorem Minted.slot?_of_ne {name : String} (h : Minted a name b) {entry : Entry}
    {space : AddressSpace} (hname : space.name ≠ name)
    (hslot : b.slot? entry = some (.memory space)) : a.slot? entry = some (.memory space) := by
  by_cases hknown : (a.resolve? entry.space).isSome = true
  · rwa [h.slot?_of_known hknown] at hslot
  · have hresolve := resolve?_of_slot? hslot
    unfold resolve? at hresolve hknown
    split at hresolve
    · next hno =>
        rw [if_pos hno] at hknown
        exact absurd rfl hknown
    · next hno =>
        rw [if_neg hno] at hknown
        rw [h.find?_eq] at hresolve
        split at hresolve
        · exact absurd (congrArg AddressSpace.name (Option.some.inj hresolve)).symm hname
        · rw [hresolve] at hknown
          exact absurd rfl hknown

/-- An overlay that is minted is a space that had no slot before, so no row starts to lead to a slot
that is filled. -/
theorem WellSeated.of_minted {name : String} (ha : a.WellSeated) (h : Minted a name b) :
    b.WellSeated where
  order := by
    rw [h.idle.table]
    exact ha.order
  filed n space hfind := (ha.filed.mint name _) n space ((h.idle.find?_eq n).symm.trans hfind)
  reliable := by
    rw [h.idle.factory]
    exact ha.reliable
  truthful := by
    rw [h.idle.caches]
    exact ha.truthful
  seated p x hx := by
    rw [h.idle.caches] at hx
    have htable : b.table = a.table := h.idle.table
    obtain ⟨used, known, filed, leads⟩ := ha.seated p x hx
    refine ⟨htable ▸ used, ?_, ?_, ?_⟩
    · rw [h.resolve?_of_known known]
      exact known
    · intro space hp
      exact (filed space hp).imp_left (h.extends_directory.find? _ _)
    · rintro space rfl hspace hslot
      rw [h.slot?_of_known known] at hslot
      -- the space is not the new overlay, and was filed before
      have hname : space.name ≠ name := by
        intro hname
        rcases filed space rfl with hold | rfl
        · rw [hname, h.fresh] at hold
          cases hold
        · rw [h.find?_eq, if_pos hname] at hspace
          cases congrArg AddressSpace.base (Option.some.inj hspace)
      rw [h.find?_eq, if_neg hname] at hspace
      obtain ⟨bound, newest⟩ := leads space rfl hspace hslot
      refine ⟨by rw [h.idle.caches]; exact bound, ?_⟩
      intro row hrow hrowslot
      rw [htable] at hrow
      exact newest row hrow (h.slot?_of_ne hname hrowslot)

/-- Filling a slot of a table in memory, with a factory that does not fail, changes nothing or puts
a sub-space there whose row is new. -/
theorem Filled.cases_memory {t : Target} {r : Except SpaceError (Option SubSpace)}
    (h : Filled a t r b) (reliable : a.trace.factory.Reliable) :
    b = a ∨ ∃ x, x.row = (a.table.nextKey, t.entry) ∧
      b.caches = a.caches.put ⟨a.table.nextKey, t.entry, x⟩ t.slot ∧
        b.table = (a.table.create t.entry).2 := by
  cases h with
  | held held => exact .inl rfl
  | noRow empty create nothing idle => cases create
  | noSpace empty create planned nothing kept caches plan count =>
      rw [reliable 0] at planned
      cases planned
  | made empty create planned kept caches plan count =>
      cases create
      exact .inr ⟨_, row_subSpace a _ t _ t.entry, caches, kept.table⟩

theorem Later.of_filled {t : Target} {r : Except SpaceError (Option SubSpace)}
    (h : Filled a t r b) (order : a.table.InOrder) (reliable : a.trace.factory.Reliable) :
    Later a b := by
  rcases h.cases_memory reliable with rfl | ⟨x, -, -, htable⟩
  · exact .of_grown (.refl b) rfl
  · refine ⟨.of_filled h, ?_, ?_⟩
    · rw [htable]
      exact Nat.le_succ _
    · intro row hrow
      rw [htable, order.rows_create] at hrow
      refine (List.mem_append.mp hrow).imp_right ?_
      intro hnew
      rw [List.mem_singleton.mp hnew]

/-- The entry of a filed space leads to no slot of another filed space. -/
theorem eq_of_slot?_unbound {space space' : AddressSpace}
    (hspace : a.trace.directory.find? space.name = some space)
    (hspace' : a.trace.directory.find? space'.name = some space')
    (hslot : a.slot? (.unbound space.name) = some (.memory space')) : space' = space := by
  have hresolve : a.resolve? space.name = some space' := resolve?_of_slot? hslot
  unfold resolve? at hresolve
  split at hresolve
  · next hno =>
      -- the name is that of the sentinel, which is then filed under it
      have hname : space'.name = space.name := by
        rw [hno, ← Option.some.inj hresolve]
        rfl
      rw [hname, hspace] at hspace'
      exact (Option.some.inj hspace').symm
  · exact Option.some.inj (hresolve.symm.trans hspace)

/-- A sub-space that has been made under a new row is seated in the slot of its space. -/
theorem WellSeated.seated_new (ha : a.WellSeated) {space : AddressSpace}
    (hfound : a.trace.directory.find? space.name = some space) (world : SameWorld a b)
    (table : b.table = (a.table.create (.unbound space.name)).2)
    (hrow : x.row = (a.table.nextKey, .unbound space.name))
    (bound : b.caches.binding? x.slot.key x.slot.entry = some x) : b.Seated (.memory space) x := by
  obtain ⟨hkey, hentry⟩ := Prod.mk.inj hrow
  refine ⟨?_, ?_, ?_, ?_⟩
  · rw [table, hkey]
    exact Nat.lt_succ_self _
  · rw [world.resolve?_eq, hentry]
    show (a.resolve? space.name).isSome = true
    unfold resolve?
    split
    · rfl
    · rw [hfound]
      rfl
  · intro s hs
    obtain rfl := SlotKey.memory.inj hs
    rw [world.find?_eq]
    exact .inl hfound
  · intro s hs _ _
    refine ⟨bound, ?_⟩
    intro row hrow _
    rw [table, ha.order.rows_create] at hrow
    rw [hkey]
    rcases List.mem_append.mp hrow with hrow | hrow
    · exact Nat.le_of_lt (ha.order.below row hrow)
    · rw [List.mem_singleton.mp hrow]

theorem WellSeated.of_filled {name : String} {space : AddressSpace}
    {r : Except SpaceError (Option SubSpace)} (ha : a.WellSeated)
    (hfound : a.trace.directory.find? name = some space) (h : Filled a (.ofSpace space) r b) :
    b.WellSeated := by
  obtain rfl : space.name = name := ha.filed name space hfound
  rcases h.cases_memory ha.reliable with rfl | ⟨x, hrow, hcaches, htable⟩
  · exact ha
  · have hworld := h.sameWorld
    obtain ⟨hkey, hentry⟩ := Prod.mk.inj hrow
    refine ⟨htable ▸ ha.order.create _, ?_, h.reliable ha.reliable, ?_, ?_⟩
    · intro n s hfind
      rw [hworld.find?_eq] at hfind
      exact ha.filed n s hfind
    · rw [hcaches]
      exact ha.truthful.put hrow _
    · intro p y hy
      rw [hcaches, Caches.at?_put] at hy
      split at hy
      · next hp =>
          obtain rfl := Option.some.inj hy
          subst hp
          refine ha.seated_new hfound hworld htable hrow ?_
          rw [hcaches, Caches.binding?_eq_some_iff, Caches.bindings_put, hkey, hentry,
            SortedMap.get?_insert_self]
      · next hp =>
          have hseated := ha.seated p y hy
          refine hseated.of_world hworld (by rw [htable]; exact Nat.le_succ _) ?_
          rintro s rfl hs ⟨bound, newest⟩
          refine ⟨?_, ?_⟩
          · rw [Caches.binding?_eq_some_iff] at bound ⊢
            rw [hcaches, Caches.bindings_put,
              SortedMap.get?_insert_of_ne _ _ (Nat.ne_of_lt hseated.used)]
            exact bound
          · intro row hrow' hslot
            rw [hworld.slot?_eq] at hslot
            rw [htable, ha.order.rows_create] at hrow'
            rcases List.mem_append.mp hrow' with hold | hnew
            · exact newest row hold hslot
            · -- the new row leads to the slot that was filled
              rw [List.mem_singleton.mp hnew] at hslot
              obtain rfl := eq_of_slot?_unbound hfound hs hslot
              exact absurd rfl hp

/-! ## Reloads -/

/-- The newest of the rows that lead to a slot is the last of them, as rows stand in key order. -/
theorem lastFor?_of_newest {rows : List Row} {row : Row}
    (increasing : rows.Pairwise fun r r' => r.1 < r'.1) (hrow : row ∈ rows)
    (hslot : a.slot? row.2 = some p)
    (newest : ∀ row' ∈ rows, a.slot? row'.2 = some p → row'.1 ≤ row.1) :
    a.lastFor? rows p = some row := by
  obtain ⟨front, back, rfl⟩ := List.append_of_mem hrow
  refine lastFor?_eq_some_iff.mpr ⟨hslot, front, back, rfl, ?_⟩
  intro row' hrow' hslot'
  have hlt := (List.pairwise_cons.mp (List.pairwise_append.mp increasing).2.1).1 row' hrow'
  exact absurd hlt (Nat.not_lt.mpr (newest row' (by simp [hrow']) hslot'))

theorem newest_of_lastFor? {rows : List Row} {row : Row}
    (increasing : rows.Pairwise fun r r' => r.1 < r'.1) (hlast : a.lastFor? rows p = some row) :
    ∀ row' ∈ rows, a.slot? row'.2 = some p → row'.1 ≤ row.1 := by
  obtain ⟨-, front, back, rfl, hback⟩ := lastFor?_eq_some_iff.mp hlast
  intro row' hrow' hslot'
  rcases List.mem_append.mp hrow' with hfront | hrest
  · have hlt := (List.pairwise_append.mp increasing).2.2 row' hfront row List.mem_cons_self
    exact Nat.le_of_lt hlt
  · rcases List.mem_cons.mp hrest with rfl | hmem
    · exact Nat.le_refl _
    · exact absurd hslot' (hback row' hmem)

/-- What a reload of a table in memory comes to: as the slots are emptied first, what is in one of
them was placed there for its row. -/
theorem WellSeated.invalidate_loaded (ha : a.WellSeated) : ∃ c,
    Loaded a a.clear a.table.rows c ∧ a.invalidate.2.table = a.table.invalidate ∧
    a.invalidate.2.caches =
      c.caches.keepBindings ((a.placements [] a.table.rows).map (·.bound.key)) ∧
    ∀ p x, a.invalidate.2.caches.at? p = some x →
      c.caches.at? p = some x ∧ a.slot? x.slot.entry = some p ∧ x.row ∈ a.table.rows ∧
        (⟨p, ⟨x.slot.key, x.slot.entry, x⟩⟩ : Placement) ∈ a.placements [] a.table.rows := by
  have read : (EntryTable.rows a.clear.table).1 = .ok a.table.rows := rfl
  have done := loadTable_ok (a := a.clear) ha.reliable read
  obtain ⟨c, hloaded, hresult⟩ :=
    loadTable_loaded (sameWorld_clear a) rfl rfl read ha.order.keys done
  have hcaches : a.invalidate.2.caches =
      c.caches.keepBindings ((a.placements [] a.table.rows).map (·.bound.key)) := by
    rw [invalidate_caches, hresult]
    rfl
  refine ⟨c, hloaded, ?_, hcaches, ?_⟩
  · rw [invalidate_snd_of_ok done, (idle_report _).table, hresult]
    exact hloaded.table
  · intro p x hx
    rw [hcaches, Caches.at?_keepBindings] at hx
    refine ⟨hx, (hloaded.at?_cases ha.truthful hx).resolve_right ?_⟩
    show a.caches.clearSlots.at? p ≠ some x
    rw [Caches.at?_clearSlots]
    exact nofun

/-- A sub-space that is in its slot stays there in a reload if it still has its row. -/
theorem WellSeated.invalidate_held (ha : a.WellSeated) {space : AddressSpace}
    (hfind : a.trace.directory.find? space.name = some space)
    (hheld : a.caches.at? (.memory space) = some x) (hrow : x.row ∈ a.table.rows)
    (hslot : a.slot? x.slot.entry = some (.memory space)) :
    a.invalidate.2.caches.at? (.memory space) = some x := by
  obtain ⟨bound, newest⟩ := (ha.seated _ x hheld).leads space rfl hfind hslot
  have hlast := lastFor?_of_newest ha.order.increasing hrow hslot newest
  obtain ⟨c, hloaded, -, hcaches, -⟩ := ha.invalidate_loaded
  rw [hcaches, Caches.at?_keepBindings]
  exact hloaded.at?_of_lastFor? hlast bound

theorem WellSeated.invalidate_leads (ha : a.WellSeated)
    (hx : a.invalidate.2.caches.at? p = some x) : a.invalidate.2.Leads p x := by
  obtain ⟨c, hloaded, htable, hcaches, hslots⟩ := ha.invalidate_loaded
  obtain ⟨hx', hslot, hrow, hplaced⟩ := hslots p x hx
  refine ⟨?_, ?_⟩
  · rw [hcaches, Caches.binding?_eq_some_iff, Caches.get?_bindings_keepBindings,
      if_pos (List.mem_map.mpr ⟨_, hplaced, rfl⟩)]
    exact Caches.binding?_eq_some_iff.mp (hloaded.binding?_of_mem ha.order.keys hplaced)
  · intro row hrow' hrowslot
    rw [htable] at hrow'
    change row ∈ a.table.rows at hrow'
    rw [(sameWorld_invalidate a).slot?_eq] at hrowslot
    -- some row has the last word on the slot, and it is that of the sub-space
    cases hlast : a.lastFor? a.table.rows p with
    | none => exact absurd hslot (lastFor?_eq_none_iff.mp hlast x.row hrow)
    | some last =>
        obtain ⟨y, hy, rfl⟩ := hloaded.exists_at?_of_lastFor? ha.truthful ha.reliable hlast
        obtain rfl : y = x := Option.some.inj (hy.symm.trans hx')
        exact newest_of_lastFor? ha.order.increasing hlast row hrow' hrowslot

theorem WellSeated.invalidate (ha : a.WellSeated) : a.invalidate.2.WellSeated := by
  have hworld := sameWorld_invalidate a
  obtain ⟨c, -, htable, -, hslots⟩ := ha.invalidate_loaded
  refine ⟨?_, ?_, reliable_invalidate ha.reliable, perform_truthful .invalidate ha.truthful, ?_⟩
  · rw [htable]
    exact ⟨ha.order.increasing, ha.order.below⟩
  · intro n space hfind
    rw [hworld.find?_eq] at hfind
    exact ha.filed n space hfind
  · intro p x hx
    obtain ⟨-, hslot, hrow, -⟩ := hslots p x hx
    refine ⟨?_, ?_, ?_, fun _ _ _ _ => ha.invalidate_leads hx⟩
    · rw [htable]
      exact ha.order.below x.row hrow
    · rw [hworld.resolve?_eq]
      exact isSome_resolve?_of_slot? hslot
    · rintro space rfl
      rw [hworld.find?_eq]
      have hresolve := resolve?_of_slot? hslot
      unfold resolve? at hresolve
      split at hresolve
      · exact .inr (Option.some.inj hresolve).symm
      · rw [ha.filed _ _ hresolve]
        exact .inl hresolve

/-! ## What a lookup can count on -/

/-- What a lookup through an object can count on at the stage that it has reached. -/
inductive OnTheWay (a : Atlas MemoryTable) : Stage → Prop
  | admitted {object : ObjectRef} {frame : UInt32} (native : a.trace.objects.Has object) :
      OnTheWay a (.admitted (.object object frame))
  | missed {object : ObjectRef} {frame : UInt32} (native : a.trace.objects.Has object) :
      OnTheWay a (.missed object frame)
  | contained {object container : ObjectRef} {frame : UInt32}
      (native : a.trace.objects.Has object)
      (leads : a.container? object frame = some container) :
      OnTheWay a (.contained object frame container)
  /-- A reload may have taken the sub-space from its slot, but not as long as it has its row. -/
  | found {object : ObjectRef} {frame : UInt32} {x : SubSpace}
      (overlay : (a.overlayOf? ⟨object.id, frame⟩).isSome = true)
      (used : x.slot.key < a.table.nextKey)
      (known : (a.resolve? x.slot.entry.space).isSome = true)
      (held : a.Persisted ⟨object.id, frame⟩ x → a.InOverlay ⟨object.id, frame⟩ x) :
      OnTheWay a (.found object frame x)
  | settled (r : Except SpaceError (Option SubSpace)) : OnTheWay a (.settled r)
  | returned (r : Except SpaceError (Option SubSpace)) : OnTheWay a (.returned r)

theorem Found.inOverlay {object container : ObjectRef} {frame : UInt32} {space : AddressSpace}
    (h : a.Found object frame container space x) (native : a.trace.objects.Has object) :
    a.InOverlay ⟨object.id, frame⟩ x := ⟨space, h.overlayOf?_eq native, h.held⟩

theorem InOverlay.onTheWay {object : ObjectRef} {frame : UInt32} (ha : a.WellSeated)
    (h : a.InOverlay ⟨object.id, frame⟩ x) : a.OnTheWay (.found object frame x) := by
  obtain ⟨space, hspace, hheld⟩ := h
  obtain ⟨used, known, -, -⟩ := ha.seated _ x hheld
  refine .found ?_ used known fun _ => ⟨space, hspace, hheld⟩
  rw [hspace]
  rfl

/-- The sections of other lookups and removals leave a lookup what it can count on: a row that is
removed does not come back. -/
theorem OnTheWay.of_later {stage : Stage} (h : a.OnTheWay stage) (later : Later a b) :
    b.OnTheWay stage := by
  have hhas := fun object => ObjectTree.has_congr later.nodes object
  cases h with
  | admitted native => exact .admitted ((hhas _).mpr native)
  | missed native => exact .missed ((hhas _).mpr native)
  | contained native leads =>
      exact .contained ((hhas _).mpr native) ((later.container?_eq _ _).trans leads)
  | found overlay used known held =>
      obtain ⟨space, hspace⟩ := Option.isSome_iff_exists.mp overlay
      have hspace' := later.overlayOf?_mono hspace
      refine .found ?_ (Nat.lt_of_lt_of_le used later.nextKey) ?_ ?_
      · rw [hspace']
        rfl
      · rw [later.resolve?_of_known known]
        exact known
      · rintro ⟨hrow, s, hs, hslot⟩
        obtain rfl : space = s := Option.some.inj (hspace'.symm.trans hs)
        rw [later.slot?_of_known known] at hslot
        have hrow' := (later.rows _ hrow).resolve_right (Nat.not_le.mpr used)
        exact (held ⟨hrow', space, hspace, hslot⟩).of_grown later.toGrown
  | settled r => exact .settled r
  | returned r => exact .returned r

/-- What is persisted and in its slot is still there after a reload. -/
theorem InOverlay.invalidate (ha : a.WellSeated) (h : a.InOverlay slot x)
    (persisted : a.Persisted slot x) : a.invalidate.2.InOverlay slot x := by
  obtain ⟨space, hspace, hheld⟩ := h
  obtain ⟨hrow, s, hs, hslot⟩ := persisted
  obtain rfl : space = s := Option.some.inj (hspace.symm.trans hs)
  refine ⟨space, ?_, ha.invalidate_held ?_ hheld hrow hslot⟩
  · rw [(sameWorld_invalidate a).overlayOf?_eq, hspace]
  · obtain ⟨object, container, -, -, -, hfind⟩ := overlayOf?_eq_some hspace
    rw [ha.filed _ _ hfind]
    exact hfind

theorem OnTheWay.invalidate {stage : Stage} (ha : a.WellSeated) (h : a.OnTheWay stage) :
    a.invalidate.2.OnTheWay stage := by
  have hworld := sameWorld_invalidate a
  have hhas := fun object => ObjectTree.has_congr hworld.nodes object
  obtain ⟨_, -, htable, -⟩ := ha.invalidate_loaded
  cases h with
  | admitted native => exact .admitted ((hhas _).mpr native)
  | missed native => exact .missed ((hhas _).mpr native)
  | contained native leads =>
      exact .contained ((hhas _).mpr native) ((hworld.container?_eq _ _).trans leads)
  | found overlay used known held =>
      refine .found ?_ ?_ ?_ ?_
      · rw [hworld.overlayOf?_eq]
        exact overlay
      · rw [htable]
        exact used
      · rw [hworld.resolve?_eq]
        exact known
      · rintro ⟨hrow, s, hs, hslot⟩
        rw [htable] at hrow
        rw [hworld.overlayOf?_eq] at hs
        rw [hworld.slot?_eq] at hslot
        have persisted : a.Persisted _ _ := ⟨hrow, s, hs, hslot⟩
        exact (held persisted).invalidate ha persisted
  | settled r => exact .settled r
  | returned r => exact .returned r

/-! ## One section -/

/-- What a section of a lookup leaves when it brings the lookup from one stage to another. -/
structure Proceeds (a : Atlas MemoryTable) (stage stage' : Stage) (b : Atlas MemoryTable) : Prop
    where
  later : Later a b
  seated : b.WellSeated
  way : b.OnTheWay stage'
  hand : ∀ h ∈ stage'.hand?, b.InOverlay h.1 h.2
  /-- Only what was in hand is kept for an object. -/
  objects : ∀ slot x, b.registry.byObject.get? slot = some x →
    a.registry.byObject.get? slot = some x ∨ stage.hand? = some (slot, x)

theorem Proceeds.of_idle {stage stage' : Stage} (h : Idle a b) (ha : a.WellSeated)
    (way : b.OnTheWay stage') (hand : stage'.hand? = none) : a.Proceeds stage stage' b where
  later := .of_grown (.of_idle h) h.table
  seated := ha.of_idle h
  way := way
  hand h hh := by
    rw [hand] at hh
    cases hh
  objects slot x hx := by
    rw [h.byObject] at hx
    exact .inl hx

theorem containerSpace_proceeds {object container : ObjectRef} {frame : UInt32}
    (ha : a.WellSeated) (native : a.trace.objects.Has object)
    (leads : a.container? object frame = some container) (create : Bool) :
    (Later a (a.containerSpace container create).2 ∧
      (a.containerSpace container create).2.WellSeated ∧
      (a.containerSpace container create).2.registry.byObject = a.registry.byObject) ∧
    ∀ x, (a.containerSpace container create).1 = .ok (some x) →
      (a.containerSpace container create).2.InOverlay ⟨object.id, frame⟩ x := by
  have hfound : ∀ {b : Atlas MemoryTable} {space : AddressSpace} {x : SubSpace},
      b.trace.objects.nodes = a.trace.objects.nodes → b.Found object frame container space x →
        b.InOverlay ⟨object.id, frame⟩ x :=
    fun hnodes h => h.inOverlay ((ObjectTree.has_congr hnodes object).mpr native)
  cases create with
  | false =>
      have hidle := idle_heldByContainer a container
      obtain ⟨-, hheld⟩ :=
        (stable_true (.frame (.object object)) false).toSteady.heldByContainer leads trivial
      refine ⟨⟨.of_grown (.of_idle hidle) hidle.table, ha.of_idle hidle, hidle.byObject⟩, ?_⟩
      intro x hx
      obtain ⟨space, h⟩ := hheld x hx
      exact hfound hidle.nodes h
  | true =>
      obtain ⟨hsteps, hheld⟩ := filledForContainer_preserves (a := a) leads
        (P := fun b => Later a b ∧ b.WellSeated ∧ b.registry.byObject = a.registry.byObject)
        (fun hidle ⟨later, seated, kept⟩ => ⟨later.trans (.of_grown (.of_idle hidle) hidle.table),
          seated.of_idle hidle, hidle.byObject.trans kept⟩)
        (fun hminted ⟨later, seated, kept⟩ =>
          ⟨later.trans (.of_grown (.of_minted hminted) hminted.idle.table),
            seated.of_minted hminted, hminted.idle.byObject.trans kept⟩)
        (fun hfind _ hfilled ⟨later, seated, kept⟩ =>
          ⟨later.trans (.of_filled hfilled seated.order seated.reliable),
            seated.of_filled hfind hfilled, hfilled.byObject_eq.trans kept⟩)
        ⟨.of_grown (.refl a) rfl, ha, rfl⟩
      refine ⟨hsteps, ?_⟩
      intro x hx
      obtain ⟨space, h⟩ := hheld x hx
      exact hfound hsteps.1.nodes h

/-- **One section of a lookup** brings it on its way, and what it then has in hand is in its
slot. -/
theorem proceed_proceeds {stage : Stage} (ha : a.WellSeated) (h : a.OnTheWay stage)
    (create : Bool) :
    a.Proceeds stage (a.proceed create stage).1 (a.proceed create stage).2 := by
  cases h with
  | @admitted object frame native =>
      simp only [proceed, advance]
      split
      · exact .of_idle (.refl a) ha (.settled _) rfl
      · exact .of_idle (.refl a) ha (.missed native) rfl
  | @missed object frame native =>
      have hidle := idle_container a object frame
      have hleads := container_fst a object frame
      simp only [proceed, advance]
      revert hidle hleads
      generalize a.container object frame = answer
      obtain ⟨_ | container, b⟩ := answer
      · exact fun hidle _ => .of_idle hidle ha (.settled _) rfl
      · intro hidle hleads
        refine .of_idle hidle ha (.contained ?_ ?_) rfl
        · exact (ObjectTree.has_congr hidle.nodes object).mpr native
        · exact (hidle.container?_eq object frame).trans hleads.symm
  | @contained object container frame native leads =>
      have hspace := containerSpace_proceeds ha native leads create
      simp only [proceed]
      revert hspace
      generalize a.containerSpace container create = answer
      obtain ⟨e | _ | x, b⟩ := answer <;> rintro ⟨⟨later, seated, kept⟩, hheld⟩
      · exact ⟨later, seated, .settled _, by simp [Stage.hand?], fun slot x hx => .inl (kept ▸ hx)⟩
      · exact ⟨later, seated, .settled _, by simp [Stage.hand?], fun slot x hx => .inl (kept ▸ hx)⟩
      · have hin := hheld x rfl
        refine ⟨later, seated, hin.onTheWay seated, ?_, fun slot x hx => .inl (kept ▸ hx)⟩
        rintro _ ⟨⟩
        exact hin
  | @found object frame x overlay used known held =>
      have hworld : SameWorld a (a.remember object frame x) := ⟨rfl, rfl, rfl, rfl, rfl⟩
      refine ⟨.of_grown (.of_world hworld fun _ _ hx => hx) rfl, ?_, .settled _, ?_, ?_⟩
      · exact ha.of_world hworld rfl rfl ha.order rfl (List.Subset.refl _)
      · simp [proceed, advance, Stage.hand?]
      · intro slot y hy
        change (a.registry.byObject.insert ⟨object.id, frame⟩ x).get? slot = some y at hy
        rw [SortedMap.get?_insert] at hy
        split at hy
        · next hslot =>
            cases hy
            rw [hslot]
            exact .inr rfl
        · exact .inl hy
  | settled r => exact .of_idle (idle_report a) ha (.returned r) rfl
  | returned r => exact .of_idle (.refl a) ha (.returned r) rfl

end Atlas

/-! ## Runs -/

namespace ObjectRace

open Atlas

variable {race : ObjectRace} {turns : List Turn}

/-- Slots and rows are in order, and every lookup is on its way. -/
structure Sound (race : ObjectRace) : Prop where
  seated : race.atlas.WellSeated
  ways : ∀ l ∈ race.lookups, race.atlas.OnTheWay l.2

/-- What is kept for objects and what lookups have in hand is in the slots of the overlays. -/
structure Current (race : ObjectRace) : Prop where
  objects : race.atlas.ObjectsHeld
  hands : ∀ l ∈ race.lookups, ∀ h ∈ l.2.hand?, race.atlas.InOverlay h.1 h.2

theorem later_remove (a : Atlas MemoryTable) (key : RowKey) :
    Later a { a with table := (a.table.remove key).2 } :=
  ⟨.of_world ⟨rfl, rfl, rfl, rfl, rfl⟩ fun _ _ hx => hx, Nat.le_refl _,
    fun _ hrow => .inl ((a.table.rows_remove_sublist key).subset hrow)⟩

/-- A turn of a lookup is a section of it, unless there is no such lookup. -/
theorem turn_lookup (sound : race.Sound) (i : Nat) :
    race.turn (.lookup i) = race ∨ ∃ create stage, (create, stage) ∈ race.lookups ∧
      ∃ stage' b, race.atlas.Proceeds stage stage' b ∧
        race.turn (.lookup i) = ⟨b, race.lookups.set i (create, stage')⟩ := by
  cases hi : race.lookups[i]? with
  | none =>
      refine .inl ?_
      simp only [turn, hi]
  | some l =>
      obtain ⟨create, stage⟩ := l
      have hmem := List.mem_of_getElem? hi
      refine .inr ⟨create, stage, hmem, _, _,
        proceed_proceeds sound.seated (sound.ways _ hmem) create, ?_⟩
      simp only [turn, hi]

theorem Sound.turn (sound : race.Sound) (t : Turn) : (race.turn t).Sound := by
  cases t with
  | lookup i =>
      rcases turn_lookup sound i with hnone | ⟨create, stage, -, stage', b, h, hturn⟩
      · rwa [hnone]
      · rw [hturn]
        refine ⟨h.seated, ?_⟩
        intro l hl
        rcases List.mem_or_eq_of_mem_set hl with hl | rfl
        · exact (sound.ways l hl).of_later h.later
        · exact h.way
  | reload =>
      exact ⟨sound.seated.invalidate, fun l hl => (sound.ways l hl).invalidate sound.seated⟩
  | remove key =>
      refine ⟨?_, fun l hl => (sound.ways l hl).of_later (later_remove _ key)⟩
      exact sound.seated.of_world ⟨rfl, rfl, rfl, rfl, rfl⟩ rfl rfl
        (sound.seated.order.remove key) rfl (MemoryTable.rows_remove_sublist _ key).subset

/-- Lookups and removals leave what is current so. -/
theorem Current.turn (current : race.Current) (sound : race.Sound) {t : Turn} (ht : t ≠ .reload) :
    (race.turn t).Current := by
  cases t with
  | lookup i =>
      rcases turn_lookup sound i with hnone | ⟨create, stage, hmem, stage', b, h, hturn⟩
      · rwa [hnone]
      · rw [hturn]
        refine ⟨?_, ?_⟩
        · intro slot x hx
          rcases h.objects slot x hx with hold | hhand
          · exact (current.objects slot x hold).of_grown h.later.toGrown
          · exact (current.hands _ hmem _ hhand).of_grown h.later.toGrown
        · intro l hl
          rcases List.mem_or_eq_of_mem_set hl with hl | rfl
          · exact fun hand hhand => (current.hands l hl hand hhand).of_grown h.later.toGrown
          · exact h.hand
  | reload => exact absurd rfl ht
  | remove key =>
      have hgrown := (later_remove race.atlas key).toGrown
      exact ⟨fun slot x hx => (current.objects slot x hx).of_grown hgrown,
        fun l hl hand hhand => (current.hands l hl hand hhand).of_grown hgrown⟩

/-- **After a reload everything is current exactly if what was in hand is persisted,** whatever was
before. -/
theorem Sound.reload_current_iff (sound : race.Sound) :
    (race.turn .reload).Current ↔ race.HandsPersisted := by
  constructor
  · intro current l hl h hh
    obtain ⟨space, hspace, hheld⟩ := current.hands l hl h hh
    obtain ⟨c, -, -, -, hslots⟩ := sound.seated.invalidate_loaded
    obtain ⟨-, hslot, hrow, -⟩ := hslots _ _ hheld
    have hworld := sameWorld_invalidate race.atlas
    exact ⟨hrow, space, (hworld.overlayOf?_eq h.1).symm.trans hspace, hslot⟩
  · intro persisted
    refine ⟨?_, ?_⟩
    · intro slot x hx
      change race.atlas.invalidate.2.registry.byObject.get? slot = some x at hx
      rw [byObject_invalidate] at hx
      cases hx
    · intro l hl h hh
      have hpersisted := persisted l hl h hh
      have hway := sound.ways l hl
      obtain ⟨create, stage⟩ := l
      cases hway with
      | found overlay used known held =>
          cases hh
          exact (held hpersisted).invalidate sound.seated hpersisted
      | _ => cases hh

/-- **What is current stays so through a run,** or becomes so at its last reload. -/
theorem Sound.run_current (sound : race.Sound) (current : .reload ∉ turns → race.Current)
    (persisted : race.PersistedAtLast turns) : (race.run turns).Current := by
  unfold run
  induction turns generalizing race with
  | nil => exact current (List.not_mem_nil)
  | cons t turns ih =>
      obtain ⟨hreload, hrest⟩ := persisted
      refine ih (sound.turn t) ?_ hrest
      intro hlast
      by_cases ht : t = .reload
      · subst ht
        exact sound.reload_current_iff.mpr (hreload rfl hlast)
      · refine (current ?_).turn sound ht
        simpa [Ne.symm ht] using hlast

variable {settings : Settings} {table : MemoryTable} {trace : Trace}
  {lookups : List ObjectLookup}

/-- **However lookups through objects, reloads and removals of rows interleave, what is kept for
objects is in the slots of the overlays,** as long as the sub-spaces that lookups have in hand at
the last reload still have their rows. -/
theorem run_objectsHeld (filed : trace.directory.Filed) (reliable : trace.factory.Reliable)
    (order : table.InOrder) (native : ∀ l ∈ lookups, trace.objects.Has l.object)
    (persisted : (start (unloaded settings table trace) lookups).PersistedAtLast turns) :
    ((start (unloaded settings table trace) lookups).run turns).atlas.ObjectsHeld := by
  have hways : ∀ l ∈ (start (unloaded settings table trace) lookups).lookups,
      (∃ l' ∈ lookups, l.2 = .admitted (.object l'.object l'.frame)) := by
    intro l hl
    obtain ⟨l', hl', rfl⟩ := List.mem_map.mp hl
    exact ⟨l', hl', rfl⟩
  have hsound : (start (unloaded settings table trace) lookups).Sound := by
    refine ⟨wellSeated_unloaded order filed reliable, ?_⟩
    intro l hl
    obtain ⟨l', hl', hstage⟩ := hways l hl
    rw [hstage]
    exact .admitted (native l' hl')
  refine (hsound.run_current (fun _ => ⟨?_, ?_⟩) persisted).objects
  · -- nothing is kept for objects at the start
    intro slot x hx
    cases hx
  · intro l hl h hh
    obtain ⟨l', -, hstage⟩ := hways l hl
    rw [hstage] at hh
    cases hh

/-- The first lookup has the sub-space of the overlay in hand when a reload comes, and others look
the same object up before and after; the row that is removed is another one. -/
theorem run_objectsHeld_inHand :
    let table : MemoryTable :=
      (({ name := "MemorySpaces" } : MemoryTable).create (.unbound "ram")).2
    let turns : List Turn := [.lookup 0, .lookup 1, .lookup 0, .lookup 0, .remove 0, .lookup 1,
      .reload, .lookup 1, .lookup 0, .lookup 2, .lookup 1, .lookup 0, .lookup 1, .lookup 2,
      .lookup 0, .lookup 1, .lookup 2]
    let race := (start (unloaded { name := "Memory" } table .single)
      [⟨true, .single, 0⟩, ⟨false, .single, 0⟩, ⟨true, .single, 0⟩]).run turns
    (race.atlas.objectHit .single 0).isSome = true ∧ race.atlas.ObjectsHeld := by
  intro table turns race
  refine ⟨by decide +kernel, ?_⟩
  exact run_objectsHeld orderly_single.filed orderly_single.reliable
    ((MemoryTable.inOrder_nil _).create _) (by decide) (by decide +kernel)

/-- The row of what a lookup has in hand is removed before a reload, and the lookup then keeps what
the reload has dropped. Without any reload, what is found through a reference with another path than
that of the object is kept for the object. -/
theorem not_objectsHeld_dropped :
    let a := unloaded { name := "Memory" } ({ name := "MemorySpaces" } : MemoryTable) .single
    ¬ ((start a [⟨true, .single, 0⟩]).run [.lookup 0, .lookup 0, .lookup 0, .remove 0, .reload,
        .lookup 0, .lookup 0, .lookup 0]).atlas.ObjectsHeld ∧
      ¬ ((start a [⟨true, ⟨1, ⟨["Elsewhere"]⟩⟩, 0⟩]).run
        (List.replicate 6 (.lookup 0))).atlas.ObjectsHeld := by
  intro a
  constructor
  · intro held
    let overlay : AddressSpace := ⟨100, "Registers", .register, some "register"⟩
    obtain ⟨space, hspace, hheld⟩ := held ⟨1, 0⟩
      ⟨0, overlay, none, ⟨0, .unbound "Registers", "Memory_Registers"⟩⟩ (by decide +kernel)
    obtain rfl : overlay = space := Option.some.inj (Eq.trans (by decide +kernel) hspace)
    revert hheld
    decide +kernel
  · intro held
    let overlay : AddressSpace := ⟨100, "Elsewhere", .register, some "register"⟩
    obtain ⟨space, hspace, -⟩ := held ⟨1, 0⟩
      ⟨0, overlay, none, ⟨0, .unbound "Elsewhere", "Memory_Elsewhere"⟩⟩ (by decide +kernel)
    -- the path of the object itself has no overlay
    rw [show overlayOf? _ _ = none by decide +kernel] at hspace
    cases hspace

end ObjectRace
end TraceAtlas
