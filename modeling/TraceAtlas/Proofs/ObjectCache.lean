import TraceAtlas.Proofs.Handles
import TraceAtlas.Proofs.SharedRun

/-!
# What is kept for objects

A registry keeps what it found through an object, and from then on answers from there. Whoever
empties a slot or puts another sub-space in it must see to what is kept. A reload does, for it
forgets all of it. A load does not: it leaves what is kept as it is, and may fill the slot of an
overlay anew, with the sub-space of a row that another writer created.

As long as no load comes upon such a row (`LoadsCurrent`), what is kept `Agrees` with what would be
found again. The counterexample at the end is a load that does come upon one.
-/

namespace TraceAtlas.Atlas

/-- The objects that a call names are objects of the tree. -/
def Move.Native (objects : ObjectTree) : Move → Prop
  | .call c => c.Native objects
  | .write _ => True

instance (objects : ObjectTree) : DecidablePred (Move.Native objects)
  | .call c => inferInstanceAs (Decidable (c.Native objects))
  | .write _ => isTrue trivial

variable {σ : Type} [EntryTable σ] {a b : Atlas σ} {object container : ObjectRef} {frame : UInt32}
  {space : AddressSpace} {x : SubSpace}

/-! ## Agreement -/

/-- The registry without what it keeps for objects. -/
def withoutObjects (a : Atlas σ) : Atlas σ :=
  { a with registry := { a.registry with byObject := .empty } }

/-- What is kept for an object is what a registry that kept nothing would find: the sub-space in the
slot of the overlay that is named after the path of the object's container. -/
structure Agrees (a : Atlas σ) (object : ObjectRef) (frame : UInt32) (x : SubSpace) : Prop where
  answered : ∀ create, (a.lookupRegister (.object object frame) create).1 = .ok (some x)
  uncached : ∀ create,
    (a.withoutObjects.lookupRegister (.object object frame) create).1 = .ok (some x)
  overlay : ∃ container space, a.Found object frame container space x ∧
    (a.lookupSpace space false).1 = .ok (some x)

/-- Whatever is kept for an object of the tree agrees. -/
def ObjectsAgree (a : Atlas σ) : Prop :=
  ∀ object frame x, a.trace.objects.Has object → a.objectHit object frame = some x →
    a.Agrees object frame x

theorem Found.agrees (h : a.Found object frame container space x)
    (contexts : a.settings.contexts = true) (offers : a.trace.directory.OffersOverlays)
    (hit : a.objectHit object frame = some x) : a.Agrees object frame x := by
  refine ⟨?_, ?_, container, space, h, ?_⟩
  · intro create
    have hheld : a.held? (RegisterKey.object object frame).handle = some x := hit
    exact (lookupRegister_of_held contexts hheld create).1
  · intro create
    have hfound : a.withoutObjects.Found object frame container space x :=
      ⟨h.leads, h.overlay, h.admitted, h.held⟩
    have hlookup := lookupRegister_of_container (a := a.withoutObjects) contexts rfl hfound.leads
      offers hfound.overlay hfound.held create
    exact hlookup.1.trans hfound.peekSpace_eq
  · exact (lookupSpace_of_held h.held false).1.trans h.peekSpace_eq

theorem Mindful.objectsAgree (h : a.Mindful) (contexts : a.settings.contexts = true)
    (offers : a.trace.directory.OffersOverlays) : a.ObjectsAgree := by
  intro object frame x hhas hit
  obtain ⟨container, space, hfound⟩ := h object frame x hit hhas
  exact hfound.agrees contexts offers hit

/-! ## Loads that leave it at that -/

/-- The overlay to which an object of the tree leads, for a frame. -/
def overlayOf? (a : Atlas σ) (slot : ObjectSlot) : Option AddressSpace :=
  (a.trace.objects.node? slot.object).bind fun node =>
    (a.container? node.object slot.frame).bind fun container =>
      a.trace.directory.find? container.path.text

omit [EntryTable σ] in
theorem Found.overlayOf?_eq (h : a.Found object frame container space x)
    (hhas : a.trace.objects.Has object) : a.overlayOf? ⟨object.id, frame⟩ = some space := by
  obtain ⟨node, hnode, rfl⟩ := Option.map_eq_some_iff.mp hhas
  simp only [overlayOf?, hnode, Option.bind_some, h.leads, h.overlay]

omit [EntryTable σ] in
theorem overlayOf?_eq_some {slot : ObjectSlot} (h : a.overlayOf? slot = some space) :
    ∃ object container, a.trace.objects.Has object ∧ slot = ⟨object.id, slot.frame⟩ ∧
      a.container? object slot.frame = some container ∧
      a.trace.directory.find? container.path.text = some space := by
  obtain ⟨node, hnode, h⟩ := Option.bind_eq_some_iff.mp h
  obtain ⟨container, hcontainer, hfind⟩ := Option.bind_eq_some_iff.mp h
  have hid : node.object.id = slot.object := by simpa using List.find?_some hnode
  refine ⟨node.object, container, ?_, by rw [hid], hcontainer, hfind⟩
  unfold ObjectTree.Has
  rw [hid, hnode]
  rfl

/-- No other row than that of the sub-space that is kept for an object has the last word on the slot
of the overlay to which the object leads. -/
def UpToDate (a : Atlas σ) (rows : List Row) : Prop :=
  ∀ slot ∈ a.registry.byObject.entries.map Prod.fst, ∀ x ∈ a.registry.byObject.get? slot,
    ∀ space ∈ a.overlayOf? slot, ∀ row ∈ a.lastFor? rows (.memory space), row = x.row

instance (a : Atlas σ) (rows : List Row) : Decidable (a.UpToDate rows) :=
  inferInstanceAs (Decidable (∀ slot ∈ _, _))

/-- What is kept for objects is up to date with what a load would read. -/
def Current (a : Atlas σ) : Prop := ∀ rows ∈ (EntryTable.rows a.table).1.toOption, a.UpToDate rows

instance (a : Atlas σ) : Decidable a.Current := inferInstanceAs (Decidable (∀ rows ∈ _, _))

variable [SharedTable σ]

/-- At each load of a run, what is kept for objects is up to date. -/
def LoadsCurrent (a : Atlas σ) : List Move → Prop
  | [] => True
  | m :: moves => (m = .call .load → a.Current) ∧ (a.moved m).LoadsCurrent moves

instance decidableLoadsCurrent (a : Atlas σ) :
    (moves : List Move) → Decidable (a.LoadsCurrent moves)
  | [] => isTrue trivial
  | m :: moves =>
    haveI := decidableLoadsCurrent (a.moved m) moves
    inferInstanceAs (Decidable ((m = .call .load → a.Current) ∧ _))

/-- A load leaves a sub-space in its slot if no other row has the last word there. -/
theorem Grounded.load_held {rows : List Row} {p : SlotKey} (ha : a.Grounded)
    (reliable : a.trace.factory.Reliable) (read : (EntryTable.rows a.table).1 = .ok rows)
    (held : a.caches.at? p = some x) (last : ∀ row ∈ a.lastFor? rows p, row = x.row) :
    a.load.2.caches.at? p = some x := by
  obtain ⟨shown, shows, rooted⟩ := ha.rooted
  obtain rfl : shown = rows := Except.ok.inj ((SharedTable.rows_eq shows).symm.trans read)
  have keys := SharedTable.keys shows
  have done := loadTable_ok reliable read
  show a.loadTable.2.report.caches.at? _ = _
  rw [(idle_report _).caches]
  cases hlast : a.lastFor? shown p with
  | none => exact (at?_loadTable_of_none read keys done hlast).trans held
  | some row =>
      obtain rfl := last row hlast
      -- the row leads to the slot, so the sub-space is bound to it
      have hslot := (lastFor?_eq_some_iff.mp hlast).1
      have hbound := (rooted.home _ x held hslot).bound
      exact at?_loadTable_of_bound (.refl a) rfl rfl read keys done hlast hbound

/-- After a load a slot holds the sub-space of the row that has the last word there. -/
theorem Grounded.load_row {rows : List Row} {p : SlotKey} {row : Row} (ha : a.Grounded)
    (reliable : a.trace.factory.Reliable) (read : (EntryTable.rows a.table).1 = .ok rows)
    (last : a.lastFor? rows p = some row) (held : a.load.2.caches.at? p = some x) :
    x.row = row := by
  obtain ⟨shown, shows, -⟩ := ha.rooted
  obtain rfl : shown = rows := Except.ok.inj ((SharedTable.rows_eq shows).symm.trans read)
  have done := loadTable_ok reliable read
  obtain ⟨c, hloaded, hresult⟩ :=
    loadTable_loaded (.refl a) rfl rfl read (SharedTable.keys shows) done
  obtain ⟨y, hy, rfl⟩ := hloaded.exists_at?_of_lastFor? ha.truthful reliable last
  change a.loadTable.2.report.caches.at? p = some x at held
  rw [(idle_report _).caches, hresult] at held
  have hx : c.caches.at? p = some x := (Caches.at?_keepBindings _ _ p).symm.trans held
  rw [Option.some.inj (hx.symm.trans hy)]

/-! ## The invariant -/

/-- What is kept for the objects of the tree is what they lead to, in surroundings that fail in
nothing. -/
structure Attentive (objects : ObjectTree) (a : Atlas σ) : Prop where
  grounded : a.Grounded
  mindful : a.Mindful
  contexts : a.settings.contexts = true
  reliable : a.trace.factory.Reliable
  offers : a.trace.directory.OffersOverlays
  nodes : a.trace.objects.nodes = objects.nodes

variable {objects : ObjectTree}

theorem Attentive.of_world (ha : Attentive objects a) (world : SameWorld a b)
    (grounded : b.Grounded) (mindful : b.Mindful) (reliable : b.trace.factory.Reliable) :
    Attentive objects b :=
  ⟨grounded, mindful, world.settings ▸ ha.contexts, reliable, world.offersOverlays ha.offers,
    world.nodes.trans ha.nodes⟩

theorem stable_attentive {q : Query} (native : q.Native objects) (create : Bool) :
    Stable q create (Attentive (σ := σ) objects) where
  idle {a b} hidle ha := by
    refine ha.of_world hidle.toSameWorld (ha.grounded.of_idle hidle) (ha.mindful.of_idle hidle) ?_
    rw [hidle.factory]
    exact ha.reliable
  mint {a b _} _ hminted ha := by
    refine ⟨ha.grounded.of_minted hminted, ha.mindful.of_minted hminted, ?_, ?_, ?_, ?_⟩
    · rw [hminted.idle.settings]
      exact ha.contexts
    · rw [hminted.idle.factory]
      exact ha.reliable
    · exact hminted.idle.offersOverlays ⟨ha.offers.up, ha.offers.current⟩
    · exact hminted.idle.nodes.trans ha.nodes
  fill _ names hfilled ha :=
    ha.of_world hfilled.sameWorld (ha.grounded.of_filled names hfilled)
      (ha.mindful.of_filled hfilled) (hfilled.reliable ha.reliable)
  remember {a object frame _ _ x} named hfresh hfound ha := by
    have hhas : a.trace.objects.Has object :=
      (ObjectTree.has_congr ha.nodes object).mpr (native object named)
    exact ⟨(stable_grounded q create).remember named hfresh hfound ha.grounded,
      ha.mindful.remember hhas hfound, ha.contexts, ha.reliable, ha.offers, ha.nodes⟩

theorem Attentive.load (ha : Attentive objects a) (current : a.Current) :
    Attentive objects a.load.2 := by
  have hworld := sameWorld_load a
  refine ha.of_world hworld ha.grounded.load ?_ (reliable_load ha.reliable)
  intro object frame x hget hhas
  rw [byObject_load] at hget
  rw [ObjectTree.has_congr hworld.nodes] at hhas
  obtain ⟨container, space, hfound⟩ := ha.mindful object frame x hget hhas
  obtain ⟨rows, shows, -⟩ := ha.grounded.rooted
  have read := SharedTable.rows_eq shows
  have hdate : a.UpToDate rows := by
    apply current rows
    rw [read]
    rfl
  have hslot := List.mem_map_of_mem (f := Prod.fst) (SortedMap.mem_entries_of_get? hget)
  have hheld := ha.grounded.load_held ha.reliable read hfound.held
    (hdate _ hslot x hget space (hfound.overlayOf?_eq hhas))
  exact ⟨container, space, hfound.of_grown (hworld.container?_eq object frame)
    hworld.extends_directory hheld⟩

/-- **What is kept for objects agrees with the slots after a load exactly if it was up to date
before.** -/
theorem Attentive.load_objectsAgree_iff (ha : Attentive objects a) :
    a.load.2.ObjectsAgree ↔ a.Current := by
  constructor
  · intro hagree rows hrows slot _ x hget space hspace row hlast
    have hworld := sameWorld_load a
    have read : (EntryTable.rows a.table).1 = .ok rows := by
      revert hrows
      cases (EntryTable.rows a.table).1 <;> simp [Except.toOption]
    obtain ⟨object, container, hhas, hslot, hleads, hfind⟩ := overlayOf?_eq_some hspace
    rw [hslot, ← byObject_load] at hget
    obtain ⟨-, -, container', space', hfound, -⟩ :=
      hagree object slot.frame x ((ObjectTree.has_congr hworld.nodes object).mpr hhas) hget
    -- the object leads to the same slot after the load
    obtain rfl : container' = container :=
      Option.some.inj (hfound.leads.symm.trans ((hworld.container?_eq _ _).trans hleads))
    obtain rfl : space' = space :=
      Option.some.inj (hfound.overlay.symm.trans ((hworld.find?_eq _).trans hfind))
    exact (ha.grounded.load_row ha.reliable read hlast hfound.held).symm
  · intro current
    have hload := ha.load current
    exact hload.mindful.objectsAgree hload.contexts hload.offers

/-- A reload forgets what was kept, whatever rows it comes upon. -/
theorem Attentive.invalidate (ha : Attentive objects a) : Attentive objects a.invalidate.2 :=
  ha.of_world (sameWorld_invalidate a) ha.grounded.invalidate
    (mindful_of_empty (byObject_invalidate a)) (reliable_invalidate ha.reliable)

theorem Attentive.moved {m : Move} (native : m.Native objects)
    (current : m = .call .load → a.Current) (ha : Attentive objects a) :
    Attentive objects (a.moved m) := by
  cases m with
  | call c =>
      cases c with
      | ask q create => exact (stable_attentive native create).ask ha
      | load => exact ha.load (current rfl)
      | invalidate => exact ha.invalidate
  | write entry =>
      have hworld : SameWorld a (a.moved (.write entry)) := ⟨rfl, rfl, rfl, rfl, rfl⟩
      exact ha.of_world hworld (ha.grounded.moved _)
        (ha.mindful.of_world hworld rfl fun _ => rfl) ha.reliable

theorem Attentive.runShared {moves : List Move} (native : ∀ m ∈ moves, m.Native objects)
    (current : a.LoadsCurrent moves) (ha : Attentive objects a) :
    Attentive objects (a.runShared moves) := by
  unfold Atlas.runShared
  induction moves generalizing a with
  | nil => exact ha
  | cons m moves ih =>
      obtain ⟨hload, hrest⟩ := current
      have hm := ha.moved (native m List.mem_cons_self) hload
      exact ih (fun n hn => native n (List.mem_cons_of_mem m hn)) hrest hm

/-! ## Runs -/

variable {settings : Settings} {table : σ} {trace : Trace} {rows : List Row} {moves : List Move}

theorem attentive_start (registers : HasRegisters settings trace.directory)
    (contexts : settings.contexts = true) (reliable : trace.factory.Reliable)
    (offers : trace.directory.OffersOverlays) (shows : SharedTable.Shows table rows) :
    Attentive trace.objects (start settings table trace).2 := by
  have hnew : Attentive trace.objects ⟨⟨settings, {}, .empty, []⟩, table, trace⟩ := by
    refine ⟨grounded_new registers shows, mindful_of_empty rfl, contexts, reliable, offers, rfl⟩
  unfold start
  dsimp only
  split
  · apply hnew.load
    -- there is nothing yet that could be out of date
    intro rows _ e he
    cases he
  · exact hnew

/-- **In every state that calls and other writers can lead to, what is kept for objects agrees with
the slots,** provided that what is kept is up to date at each load. -/
theorem runShared_objectsAgree (registers : HasRegisters settings trace.directory)
    (contexts : settings.contexts = true) (reliable : trace.factory.Reliable)
    (offers : trace.directory.OffersOverlays) (shows : SharedTable.Shows table rows)
    (native : ∀ m ∈ moves, m.Native trace.objects)
    (current : (start settings table trace).2.LoadsCurrent moves) :
    ((start settings table trace).2.runShared moves).ObjectsAgree := by
  have hstart := attentive_start registers contexts reliable offers shows
  have hend := hstart.runShared native current
  exact hend.mindful.objectsAgree hend.contexts hend.offers

/-- The slot of an overlay is taken over by the row of another writer before a reload, and rows for
other slots come in before the loads. -/
theorem runShared_objectsAgree_overlay :
    let moves : List Move := [
      .call (.ask (.frame (.object .single)) true), .write (.unbound "ram"), .call .load,
      .write (.unbound "Registers"), .call .invalidate,
      .call (.ask (.frame (.object .single)) false), .write (.unbound "unique"), .call .load]
    let a := (start { name := "Memory" } ({ name := "MemorySpaces" } : MemoryTable)
      .single).2.runShared moves
    (a.objectHit .single 0).isSome = true ∧ a.ObjectsAgree := by
  intro moves a
  refine ⟨by decide +kernel, ?_⟩
  exact runShared_objectsAgree orderly_single.hasRegisters rfl orderly_single.reliable ⟨rfl, rfl⟩
    (MemoryTable.shows_nil _) (by decide +kernel) (by decide +kernel)

/-- A load puts the sub-space of a newer row in the slot of the overlay, and what is kept for the
object is still the one that was there before. -/
theorem not_objectsAgree_newerRow :
    ¬ ((start { name := "Memory" } ({ name := "MemorySpaces" } : MemoryTable) .single).2.runShared
      [.call (.ask (.frame (.object .single)) true), .write (.unbound "Registers"),
        .call .load]).ObjectsAgree := by
  intro h
  let overlay : AddressSpace := ⟨100, "Registers", .register, some "register"⟩
  have hagrees := h .single 0 ⟨0, overlay, none, ⟨0, .unbound "Registers", "Memory_Registers"⟩⟩
    (by decide) (by decide +kernel)
  have huncached := hagrees.uncached false
  revert huncached
  decide +kernel

end TraceAtlas.Atlas
