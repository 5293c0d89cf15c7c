import TraceAtlas.Proofs.Growth
import TraceAtlas.Proofs.Handles

/-!
# Steps that create once

Where the surroundings do not fail (`Favorable`) and rows, slots and what is kept for objects belong
together (`Tidy`), each step of a lookup that is not refused its row (`Grants`) leaves them so, and
what it creates is the one row of a slot that was empty (`CreatedOnce`). The step that matters is the
filling of a slot: the slot is looked at first, and an empty slot has no row (`Tidy.entry_notMem`),
for if the row that is about to be written were there, the slot would be filled.
-/

namespace TraceAtlas

namespace Atlas

variable {σ : Type} {a b c : Atlas σ} {rows new : List Row}

/-! ## The invariant -/

/-- If the slot of `t` is empty, the table does not refuse the row for it. -/
def Grants [EntryTable σ] (a : Atlas σ) (t : Target) : Prop :=
  a.caches.at? t.slot = none → (EntryTable.create t.entry a.table).1.isOk = true

instance [EntryTable σ] (a : Atlas σ) (t : Target) : Decidable (a.Grants t) :=
  inferInstanceAs (Decidable (_ → _))

/-- Surroundings that do not fail: overlays can be had and sub-spaces can be built. Contexts have
keys other than the one that stands for no context. -/
structure Favorable (a : Atlas σ) : Prop where
  keys : ∀ context, ContextDirectory.owns a.trace.contexts context = true →
    context.key ≠ Entry.noContext
  filed : a.trace.directory.Filed
  offers : a.trace.directory.OffersOverlays
  reliable : a.trace.factory.Reliable

/-- The table holds `rows`, all with entries of their own. The slot of each row is filled, unless
the row is of an unknown context, and what is kept for an object of the tree is what the slot of its
container's overlay holds. -/
structure Tidy [EntryTable σ] [LawfulTable σ] (a : Atlas σ) (rows : List Row) : Prop where
  holds : LawfulTable.Holds a.table rows
  entries : (rows.map Prod.snd).Nodup
  filled : ∀ row ∈ rows, a.Knows row.2 →
    ∃ p x, a.home? row.2 = some p ∧ a.caches.at? p = some x
  objects : ∀ object frame x, a.registry.byObject.get? ⟨object.id, frame⟩ = some x →
    a.trace.objects.Has object →
      ∃ p, a.slotOn? (.object object frame) = some p ∧ a.caches.at? p = some x

/-- `b` is `a` with sub-spaces for `new` rows: each new row has filled the slot that it stands for,
which was empty, and no other slot has changed. The overlays that were minted for them have names of
their own. -/
structure CreatedOnce [EntryTable σ] [LawfulTable σ] (a b : Atlas σ) (rows new : List Row) :
    Prop where
  grown : Grown a b
  favorable : b.Favorable
  tidy : b.Tidy (rows ++ new)
  made : ∀ row ∈ new, ∃ p x, b.home? row.2 = some p ∧ a.caches.at? p = none ∧
    b.caches.at? p = some x ∧ x.row = row
  slots : ∀ p x, b.caches.at? p = some x →
    a.caches.at? p = some x ∨ x.row ∈ new ∧ b.home? x.row.2 = some p
  built : b.trace.factory.built = a.trace.factory.built + new.length
  overlays : ∃ names, a.trace.directory.Minting b.trace.directory names

variable [EntryTable σ] [LawfulTable σ]

/-- Where no slot is filled, no row is created. -/
theorem CreatedOnce.of_caches (grown : Grown a b) (favorable : b.Favorable) (tidy : b.Tidy rows)
    (caches : b.caches = a.caches) (built : b.trace.factory.built = a.trace.factory.built)
    (overlays : ∃ names, a.trace.directory.Minting b.trace.directory names) :
    CreatedOnce a b rows [] where
  grown := grown
  favorable := favorable
  tidy := by rw [List.append_nil]; exact tidy
  made := by simp
  slots p x hx := by
    rw [caches] at hx
    exact .inl hx
  built := built
  overlays := overlays

theorem CreatedOnce.refl (favorable : a.Favorable) (tidy : a.Tidy rows) :
    CreatedOnce a a rows [] :=
  .of_caches (.refl a) favorable tidy rfl rfl ⟨[], .of_find?_eq (fun _ => rfl) rfl⟩

theorem CreatedOnce.trans {new' : List Row} (h : CreatedOnce a b rows new)
    (h' : CreatedOnce b c (rows ++ new) new') : CreatedOnce a c rows (new ++ new') where
  grown := h.grown.trans h'.grown
  favorable := h'.favorable
  tidy := by rw [← List.append_assoc]; exact h'.tidy
  made := by
    intro row hrow
    rcases List.mem_append.mp hrow with hrow | hrow
    · obtain ⟨p, x, hhome, hempty, hx, hrow⟩ := h.made row hrow
      exact ⟨p, x, h'.grown.home?_mono hhome, hempty, h'.grown.slots p x hx, hrow⟩
    · obtain ⟨p, x, hhome, hempty, hx, hrow⟩ := h'.made row hrow
      refine ⟨p, x, hhome, ?_, hx, hrow⟩
      cases ha : a.caches.at? p with
      | none => rfl
      | some y =>
          rw [h.grown.slots p y ha] at hempty
          cases hempty
  slots p x hx := by
    rcases h'.slots p x hx with hx | ⟨hrow, hhome⟩
    · exact (h.slots p x hx).imp_right fun ⟨hrow, hhome⟩ =>
        ⟨List.mem_append_left _ hrow, h'.grown.home?_mono hhome⟩
    · exact .inr ⟨List.mem_append_right _ hrow, hhome⟩
  built := by rw [h'.built, h.built, List.length_append, Nat.add_assoc]
  overlays := by
    obtain ⟨names, hnames⟩ := h.overlays
    obtain ⟨names', hnames'⟩ := h'.overlays
    exact ⟨names ++ names', hnames.trans hnames'⟩

theorem CreatedOnce.tidy_of_nothing (h : CreatedOnce a b rows []) : b.Tidy rows := by
  have tidy := h.tidy
  rwa [List.append_nil] at tidy

theorem CreatedOnce.nothing_trans (h : CreatedOnce a b rows []) (h' : CreatedOnce b c rows new) :
    CreatedOnce a c rows new := by
  rw [← List.append_nil rows] at h'
  exact h.trans h'

theorem Tidy.filled_of_grown (h : a.Tidy rows) (grown : Grown a b) {row : Row} (hrow : row ∈ rows)
    (knows : b.Knows row.2) : ∃ p x, b.home? row.2 = some p ∧ b.caches.at? p = some x := by
  obtain ⟨p, x, hp, hx⟩ := h.filled row hrow ((grown.knows_iff _).mp knows)
  exact ⟨p, x, grown.home?_mono hp, grown.slots p x hx⟩

theorem Tidy.objects_of_grown (h : a.Tidy rows) (grown : Grown a b)
    (byObject : b.registry.byObject = a.registry.byObject) {object : ObjectRef} {frame : UInt32}
    {x : SubSpace} (hget : b.registry.byObject.get? ⟨object.id, frame⟩ = some x)
    (hhas : b.trace.objects.Has object) :
    ∃ p, b.slotOn? (.object object frame) = some p ∧ b.caches.at? p = some x := by
  rw [byObject] at hget
  rw [ObjectTree.has_congr grown.nodes] at hhas
  obtain ⟨p, hp, hx⟩ := h.objects object frame x hget hhas
  exact ⟨p, grown.slotOn?_mono hp, grown.slots p x hx⟩

/-- Growth alone keeps an atlas tidy: no row loses its slot. -/
theorem Tidy.of_grown (h : a.Tidy rows) (grown : Grown a b) (table : b.table = a.table)
    (byObject : b.registry.byObject = a.registry.byObject) : b.Tidy rows where
  holds := by rw [table]; exact h.holds
  entries := h.entries
  filled _ hrow knows := h.filled_of_grown grown hrow knows
  objects _ _ _ hget hhas := h.objects_of_grown grown byObject hget hhas

/-- An entry whose slot is empty has no row yet. -/
theorem Tidy.entry_notMem (h : a.Tidy rows) {entry : Entry} {p : SlotKey}
    (home : a.home? entry = some p) (knows : a.Knows entry) (empty : a.caches.at? p = none) :
    entry ∉ rows.map Prod.snd := by
  intro hmem
  obtain ⟨row, hrow, rfl⟩ := List.mem_map.mp hmem
  obtain ⟨q, x, hq, hx⟩ := h.filled row hrow knows
  obtain rfl : q = p := Option.some.inj (hq.symm.trans home)
  rw [empty] at hx
  cases hx

theorem Tidy.concat (h : a.Tidy rows) (grown : Grown a b)
    (byObject : b.registry.byObject = a.registry.byObject) {key : RowKey} {entry : Entry}
    {p : SlotKey} {x : SubSpace} (holds : LawfulTable.Holds b.table (rows ++ [(key, entry)]))
    (fresh : entry ∉ rows.map Prod.snd) (home : a.home? entry = some p)
    (held : b.caches.at? p = some x) : b.Tidy (rows ++ [(key, entry)]) where
  holds := holds
  entries := by
    rw [List.map_append, List.nodup_append]
    refine ⟨h.entries, by simp, ?_⟩
    rintro other hother _ hsame rfl
    rw [List.map_singleton, List.mem_singleton] at hsame
    rw [hsame] at hother
    exact fresh hother
  filled row hrow knows := by
    rcases List.mem_append.mp hrow with hrow | hrow
    · exact h.filled_of_grown grown hrow knows
    · rw [List.mem_singleton.mp hrow]
      exact ⟨p, x, grown.home?_mono home, held⟩
  objects _ _ _ hget hhas := h.objects_of_grown grown byObject hget hhas

/-! ## What the steps of a section create -/

omit [EntryTable σ] [LawfulTable σ] in
theorem Favorable.of_world (h : a.Favorable) (world : SameWorld a b)
    (reliable : b.trace.factory.Reliable) : b.Favorable where
  keys := by rw [world.contexts]; exact h.keys
  filed := by
    intro name space hfind
    rw [world.find?_eq] at hfind
    exact h.filed name space hfind
  offers := world.offersOverlays h.offers
  reliable := reliable

omit [EntryTable σ] [LawfulTable σ] in
theorem Favorable.of_idle (h : a.Favorable) (idle : Idle a b) : b.Favorable := by
  apply h.of_world idle.toSameWorld
  rw [idle.factory]
  exact h.reliable

omit [EntryTable σ] [LawfulTable σ] in
theorem Favorable.of_minted {name : String} (h : a.Favorable) (minted : Minted a name b) :
    b.Favorable := by
  have hmint : Favorable { a with trace := { a.trace with
      directory := a.trace.directory.mint name a.settings.language.registerSpace } } :=
    ⟨h.keys, h.filed.mint name _, ⟨h.offers.up, h.offers.current⟩, h.reliable⟩
  exact hmint.of_idle minted.idle

theorem CreatedOnce.of_idle (favorable : a.Favorable) (tidy : a.Tidy rows) (h : Idle a b) :
    CreatedOnce a b rows [] := by
  have hgrown : Grown a b := .of_idle h
  refine .of_caches hgrown (favorable.of_idle h) ?_ h.caches (by rw [h.factory]) ?_
  · exact tidy.of_grown hgrown h.table h.byObject
  · exact ⟨[], h.minting⟩

theorem CreatedOnce.of_minted {name : String} (favorable : a.Favorable) (tidy : a.Tidy rows)
    (h : Minted a name b) : CreatedOnce a b rows [] := by
  have hgrown : Grown a b := .of_minted h
  refine .of_caches hgrown (favorable.of_minted h) ?_ h.idle.caches (by rw [h.idle.factory]) ?_
  · exact tidy.of_grown hgrown h.idle.table h.idle.byObject
  · exact ⟨[name] ++ [], (Directory.minting_mint h.fresh _).trans h.idle.minting⟩

/-- What is kept for an object may be added if it is what the object leads to. -/
theorem CreatedOnce.remember {object : ObjectRef} {frame : UInt32} {p : SlotKey} {x : SubSpace}
    (favorable : a.Favorable) (tidy : a.Tidy rows) (hhas : a.trace.objects.Has object)
    (slot : a.slotOn? (.object object frame) = some p) (held : a.caches.at? p = some x) :
    CreatedOnce a (a.remember object frame x) rows [] := by
  have hworld : SameWorld a (a.remember object frame x) := ⟨rfl, rfl, rfl, rfl, rfl⟩
  refine .of_caches (.of_world hworld fun _ _ hx => hx)
    (favorable.of_world hworld favorable.reliable)
    ⟨tidy.holds, tidy.entries, tidy.filled, ?_⟩ rfl rfl ⟨[], hworld.minting⟩
  intro object' frame' y hget hhas'
  have hinsert : (a.remember object frame x).registry.byObject =
      a.registry.byObject.insert ⟨object.id, frame⟩ x := rfl
  rw [hinsert, SortedMap.get?_insert] at hget
  split at hget
  · next hslot =>
      cases hget
      obtain ⟨hid, rfl⟩ := ObjectSlot.mk.inj hslot
      obtain rfl : object' = object := hhas'.eq hhas hid
      exact ⟨p, slot, held⟩
  · exact tidy.objects object' frame' y hget hhas'

/-- **A slot that is filled is filled once:** it held the answer before, or gets its one row. -/
theorem Filled.createdOnce {t : Target} {r : Except SpaceError (Option SubSpace)}
    (h : Filled a t r b) (favorable : a.Favorable) (tidy : a.Tidy rows)
    (grants : a.Grants t) (home : a.home? t.entry = some t.slot) (knows : a.Knows t.entry) :
    ∃ x new, r = .ok (some x) ∧ b.caches.at? t.slot = some x ∧ CreatedOnce a b rows new := by
  have hgrown : Grown a b := .of_filled h
  have hbyObject := h.byObject_eq
  have hreliable := h.reliable favorable.reliable
  have hworld := h.sameWorld
  cases h with
  | held held => exact ⟨_, [], rfl, held, .refl favorable tidy⟩
  | noRow empty create nothing idle =>
      have hok := grants empty
      rw [create] at hok
      cases hok
  | noSpace empty create planned nothing kept caches plan count =>
      rw [favorable.reliable 0] at planned
      cases planned
  | @made _ key table empty create planned kept caches plan count =>
      have hslot : b.caches.at? t.slot =
          some (a.subSpace a.trace.factory.built t key t.entry) := by
        rw [caches, Caches.at?_put, if_pos rfl]
      have hholds : LawfulTable.Holds b.table (rows ++ [(key, t.entry)]) := by
        rw [kept.table]
        exact (LawfulTable.create_holds tidy.holds create).2
      have htidy : b.Tidy (rows ++ [(key, t.entry)]) :=
        tidy.concat hgrown hbyObject hholds (tidy.entry_notMem home knows empty) home hslot
      refine ⟨_, [(key, t.entry)], rfl, hslot, hgrown, favorable.of_world hworld hreliable, htidy,
        ?_, ?_, count, [], hworld.minting⟩
      · intro row hrow
        rw [List.mem_singleton.mp hrow]
        exact ⟨t.slot, _, hgrown.home?_mono home, empty, hslot, row_subSpace _ _ _ _ _⟩
      · intro p x hx
        rw [caches, Caches.at?_put] at hx
        split at hx
        · next hp =>
            cases hx
            rw [row_subSpace, hp]
            exact .inr ⟨List.mem_singleton_self _, hgrown.home?_mono home⟩
        · exact .inl hx

/-! ## The slot of a container -/

omit [EntryTable σ] [LawfulTable σ] in
theorem overlay_ok (offers : a.trace.directory.OffersOverlays) (name : String) :
    ∃ space, (a.overlay name).1 = .ok (some space) := by
  unfold overlay Directory.overlay
  simp only [offers.current, offers.up, Bool.false_eq_true, if_false]
  split <;> exact ⟨_, rfl⟩

theorem overlay_createdOnce (favorable : a.Favorable) (tidy : a.Tidy rows) (name : String) :
    CreatedOnce a (a.overlay name).2 rows [] ∧
      ∃ space, (a.overlay name).1 = .ok (some space) ∧
        (a.overlay name).2.trace.directory.find? name = some space := by
  obtain ⟨space, hspace⟩ := overlay_ok favorable.offers name
  have hspec := overlay_spec a name
  revert hspace hspec
  generalize a.overlay name = answer
  obtain ⟨r, b⟩ := answer
  rintro rfl hspec
  cases hspec with
  | refused nothing idle => exact absurd rfl (nothing space)
  | found found idle => exact ⟨.of_idle favorable tidy idle, space, rfl, found⟩
  | minted found minted => exact ⟨.of_minted favorable tidy minted, space, rfl, found⟩

/-- The slot of a container on `b` answers `r` by the time of `c`: it holds the answer, or the space
of the container is refused. -/
inductive ContainerServed (b c : Atlas σ) (container : ObjectRef) :
    Except SpaceError (Option SubSpace) → Prop
  | given {space : AddressSpace} {x : SubSpace}
      (overlay : c.trace.directory.find? container.path.text = some space)
      (held : c.caches.at? (.memory space) = some x) : ContainerServed b c container (.ok (some x))
  | refused {d : Atlas σ} {space : AddressSpace} {e : SpaceError} (after : Grown b d)
      (before : Grown d c) (overlay : d.trace.directory.find? container.path.text = some space)
      (named : space.name = container.path.text) (check : (d.check space).1 = .error e) :
      ContainerServed b c container (.error e)

/-- The slot of a container, and the atlas on which it is got or filled, if the overlay of the
container can be had and is let in. -/
def containerSlot? (a : Atlas σ) (container : ObjectRef) : Option (Target × Atlas σ) :=
  match a.overlay container.path.text with
  | (.ok (some space), b) =>
    match b.check space with
    | (.ok (), c) => some (.ofSpace space, c)
    | (.error _, _) => none
  | _ => none

theorem filledForContainer_createdOnce (favorable : b.Favorable) (tidy : b.Tidy rows)
    (container : ObjectRef) (grants : ∀ p ∈ b.containerSlot? container, p.2.Grants p.1)
    (sentinel : (b.filledForContainer container).2.trace.directory.find? noAddressName = none) :
    ∃ new, CreatedOnce b (b.filledForContainer container).2 rows new ∧
      ContainerServed b (b.filledForContainer container).2 container
        (b.filledForContainer container).1 := by
  obtain ⟨hminted, space, hspace, hfind⟩ := overlay_createdOnce favorable tidy container.path.text
  unfold containerSlot? at grants
  unfold filledForContainer at sentinel ⊢
  revert hminted hspace hfind
  generalize b.overlay container.path.text = answer at grants sentinel ⊢
  obtain ⟨r, c⟩ := answer
  rintro hminted rfl hfind
  dsimp only at grants sentinel hminted hfind ⊢
  have hidle := idle_check c space
  revert hidle
  generalize hcheck : c.check space = answer at grants sentinel ⊢
  obtain ⟨e | _, d⟩ := answer <;> intro hidle <;> dsimp only at grants sentinel hidle ⊢
  · have hchecked : CreatedOnce c d rows [] :=
      .of_idle hminted.favorable hminted.tidy_of_nothing hidle
    refine ⟨[], hminted.nothing_trans hchecked, ?_⟩
    exact .refused hminted.grown hchecked.grown hfind (hminted.favorable.filed _ _ hfind)
      (by rw [hcheck])
  · have hchecked : CreatedOnce b d rows [] :=
      hminted.nothing_trans (.of_idle hminted.favorable hminted.tidy_of_nothing hidle)
    have hfilled := fillSlot_spec d (.ofSpace space)
    have hname : space.name = container.path.text := hminted.favorable.filed _ _ hfind
    have hfind' : d.trace.directory.find? space.name = some space := by
      rw [hidle.find?_eq, hname]
      exact hfind
    have hhome := home?_ofSpace (hfilled.sameWorld.find?_eq _ ▸ sentinel) (.inr hfind')
    obtain ⟨x, new, hanswer, hheld, hcreated⟩ := hfilled.createdOnce hchecked.favorable
      hchecked.tidy_of_nothing (grants _ rfl) hhome (.inl rfl)
    refine ⟨new, hchecked.nothing_trans hcreated, ?_⟩
    show ContainerServed b _ container (d.fillSlot (.ofSpace space)).1
    rw [hanswer]
    refine .given ?_ hheld
    rw [← hname]
    exact hcreated.grown.directory.find? _ _ hfind'

end Atlas
end TraceAtlas
