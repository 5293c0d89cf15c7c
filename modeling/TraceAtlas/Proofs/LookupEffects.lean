import TraceAtlas.Proofs.AppendingTable
import TraceAtlas.Proofs.Growth

/-!
# What a creating lookup changes

A lookup that may create can end at every step on its way: it is turned away, its object leads to no
container, the overlay of the container cannot be had, its slot is filled already, the table refuses
the row, or the factory fails behind the row. `Stops` and `Arrives` tell apart what happens before a
slot is asked, `Outcome` what comes of the slot, and `ask_changes` says of all of them together what
has changed when the lookup is over: nothing up to the row, the row and nothing else if the factory
fails, and otherwise a row, the slot and the binding of the row, all for the sub-space that is
answered. What is kept for objects only ever grows by the answer.
-/

namespace TraceAtlas

/-- A sub-space is put in a slot that was empty and bound to its row; all else stays. -/
structure Caches.Gains (c : Caches) (p : SlotKey) (x : SubSpace) (d : Caches) : Prop where
  vacant : c.at? p = none
  slots : ∀ q, d.at? q = if q = p then some x else c.at? q
  bindings : ∀ key, d.bindings.get? key =
    if key = x.slot.key then some ⟨x.slot.entry, x⟩ else c.bindings.get? key

theorem Caches.gains_put {c : Caches} {p : SlotKey} (vacant : c.at? p = none) {x : SubSpace}
    {key : RowKey} {entry : Entry} (row : x.row = (key, entry)) :
    c.Gains p x (c.put ⟨key, entry, x⟩ p) := by
  obtain ⟨rfl, rfl⟩ := Prod.mk.inj row
  refine ⟨vacant, fun q => at?_put c _ p q, fun k => ?_⟩
  rw [bindings_put, SortedMap.get?_insert]

namespace Atlas

variable {σ : Type} {a b c : Atlas σ} {q : Query} {create : Bool}

/-! ## Where a creating lookup ends -/

/-- What is answered when the overlay of a container is asked for. -/
def overlaid (a : Atlas σ) (container : ObjectRef) : Directory.Minted :=
  a.trace.directory.overlay container.path.text a.settings.language.registerSpace

/-- The lookup goes through an object for which nothing is kept and which leads to a container. -/
structure Seeks (a : Atlas σ) (q : Query) (object : ObjectRef) (frame : UInt32)
    (container : ObjectRef) : Prop where
  way : a.way q = .ok (some (.object object frame))
  unknown : a.objectHit object frame = none
  leads : a.container? object frame = some container

/-- A creating lookup ends before any slot is asked. -/
inductive Stops (a : Atlas σ) (q : Query) : Prop
  | refused {e : SpaceError} (way : a.way q = .error e)
  | withoutContexts (way : a.way q = .ok none)
  | unadmitted {space : AddressSpace} (way : a.way q = .ok (some (.space space)))
      (unadmitted : ¬a.trace.directory.Admits space)
  /-- The sub-space was found before through the object. -/
  | known {object : ObjectRef} {frame : UInt32} {x : SubSpace}
      (way : a.way q = .ok (some (.object object frame)))
      (known : a.objectHit object frame = some x)
  | unresolved {object : ObjectRef} {frame : UInt32}
      (way : a.way q = .ok (some (.object object frame)))
      (unknown : a.objectHit object frame = none) (nowhere : a.container? object frame = none)
  | noOverlay {object container : ObjectRef} {frame : UInt32} {e : TableError}
      (seeks : a.Seeks q object frame container) (failed : (a.overlaid container).space = .error e)
  | foreignOverlay {object container : ObjectRef} {frame : UInt32} {space : AddressSpace}
      (seeks : a.Seeks q object frame container)
      (overlay : (a.overlaid container).space = .ok space)
      (unadmitted : ¬(a.overlaid container).directory.Admits space)

/-- A creating lookup comes to the slot of a target. -/
inductive Arrives (a : Atlas σ) (q : Query) : Target → Prop
  | space {space : AddressSpace} (way : a.way q = .ok (some (.space space)))
      (admitted : a.trace.directory.Admits space) : Arrives a q (.ofSpace space)
  | bank {context : ExecutionContext} {frame : UInt32}
      (way : a.way q = .ok (some (.bank context frame))) :
      Arrives a q (.ofBank a.settings.language.registerSpace context frame)
  | container {object container : ObjectRef} {frame : UInt32} {space : AddressSpace}
      (seeks : a.Seeks q object frame container)
      (overlay : (a.overlaid container).space = .ok space)
      (admitted : (a.overlaid container).directory.Admits space) : Arrives a q (.ofSpace space)

/-- The table, the slots and bindings, what is kept for objects and what was built are as they were;
an overlay may be new. -/
structure Untouched (a b : Atlas σ) : Prop where
  settings : b.settings = a.settings
  table : b.table = a.table
  caches : b.caches = a.caches
  byObject : b.registry.byObject = a.registry.byObject
  factory : b.trace.factory = a.trace.factory

theorem Untouched.refl (a : Atlas σ) : Untouched a a := ⟨rfl, rfl, rfl, rfl, rfl⟩

theorem Untouched.trans (h : Untouched a b) (h' : Untouched b c) : Untouched a c where
  settings := h'.settings.trans h.settings
  table := h'.table.trans h.table
  caches := h'.caches.trans h.caches
  byObject := h'.byObject.trans h.byObject
  factory := h'.factory.trans h.factory

theorem Idle.untouched (h : Idle a b) : Untouched a b :=
  ⟨h.settings, h.table, h.caches, h.byObject, h.factory⟩

theorem untouched_overlay (a : Atlas σ) (name : String) : Untouched a (a.overlay name).2 := by
  unfold overlay settle
  dsimp only
  split
  · exact ⟨rfl, rfl, rfl, rfl, rfl⟩
  · split <;> exact ⟨rfl, rfl, rfl, rfl, rfl⟩

theorem directory_overlay (a : Atlas σ) (container : ObjectRef) :
    (a.overlay container.path.text).2.trace.directory = (a.overlaid container).directory := by
  unfold overlay settle
  dsimp only
  split
  · rfl
  · split <;> rfl

/-- The overlay that is had is the one that the directory answers. -/
theorem overlay_fst_eq_ok_iff {container : ObjectRef} {space : AddressSpace} :
    (a.overlay container.path.text).1 = .ok (some space) ↔
      (a.overlaid container).space = .ok space :=
  settle_fst_eq_ok_some_iff

/-- Searching the tree leaves the directory alone. -/
theorem overlaid_container (a : Atlas σ) (object container : ObjectRef) (frame : UInt32) :
    (a.container object frame).2.overlaid container = a.overlaid container := by
  unfold Atlas.container
  dsimp only
  split
  · rfl
  · split <;> rfl

/-! ## What comes of a slot -/

variable [EntryTable σ]

/-- What has come of the slot of `t` when a creating lookup on `a` has answered `r` and left `b`: the
slot was filled, the table refuses the row, the factory fails behind the row, or there is a new
sub-space. -/
structure Outcome (a : Atlas σ) (t : Target) (r : Except SpaceError (Option SubSpace))
    (b : Atlas σ) : Prop where
  held : ∀ x, a.caches.at? t.slot = some x →
    r = .ok (some x) ∧ b.table = a.table ∧ b.caches = a.caches ∧ b.trace.factory = a.trace.factory
  noRow : ∀ e table, a.caches.at? t.slot = none →
    EntryTable.create t.entry a.table = (.error e, table) →
      (∀ x, r ≠ .ok (some x)) ∧ SameRows a.table b.table ∧ b.caches = a.caches ∧
        b.trace.factory = a.trace.factory
  noSpace : ∀ key table fault, a.caches.at? t.slot = none →
    EntryTable.create t.entry a.table = (.ok key, table) →
    a.trace.factory.fault? 0 = some fault →
      (∀ x, r ≠ .ok (some x)) ∧ GainsRow a.table (key, t.entry) b.table ∧ b.caches = a.caches ∧
        b.trace.factory.built = a.trace.factory.built
  made : ∀ key table, a.caches.at? t.slot = none →
    EntryTable.create t.entry a.table = (.ok key, table) →
    a.trace.factory.fault? 0 = none →
      ∃ x, r = .ok (some x) ∧ x.row = (key, t.entry) ∧ GainsRow a.table (key, t.entry) b.table ∧
        a.caches.Gains t.slot x b.caches ∧
        b.trace.factory.built = a.trace.factory.built + 1

variable {t : Target} {r : Except SpaceError (Option SubSpace)}

theorem Outcome.later (h : a.Outcome t r b) (table : c.table = b.table)
    (caches : c.caches = b.caches) (factory : c.trace.factory = b.trace.factory) :
    a.Outcome t r c := by
  obtain ⟨held, noRow, noSpace, made⟩ := h
  rw [← table, ← caches, ← factory] at held noRow noSpace made
  exact ⟨held, noRow, noSpace, made⟩

theorem Outcome.report (h : a.Outcome t r b) : a.Outcome t r b.report :=
  h.later (idle_report b).table (idle_report b).caches (idle_report b).factory

/-- What is changed before the slot is asked does not matter, if an outcome says nothing of it. -/
theorem Outcome.of_untouched (before : Untouched a c) (h : c.Outcome t r b) : a.Outcome t r b := by
  obtain ⟨held, noRow, noSpace, made⟩ := h
  rw [before.table, before.caches, before.factory] at held noRow noSpace made
  exact ⟨held, noRow, noSpace, made⟩

/-- Filling a slot has the outcome that the slot, the table and the plan of the factory decide. -/
theorem Filled.outcome [AppendingTable σ]
    (ready : a.caches.at? t.slot = none → AppendingTable.Ready a.table) (h : Filled a t r b) :
    a.Outcome t r b := by
  cases h with
  | @held x held =>
      refine ⟨?_, by simp [held], by simp [held], by simp [held]⟩
      intro y hy
      rw [held] at hy
      exact ⟨by rw [hy], rfl, rfl, rfl⟩
  | noRow empty create nothing idle =>
      refine ⟨by simp [empty], ?_, by simp [create], by simp [create]⟩
      intro e table _ hcreate
      obtain ⟨-, rfl⟩ := Prod.mk.inj (create.symm.trans hcreate)
      rw [idle.table]
      exact ⟨nothing, (AppendingTable.refused create).1, idle.caches, idle.factory⟩
  | noSpace empty create planned nothing kept caches plan count =>
      refine ⟨by simp [empty], by simp [create], ?_, by simp [planned]⟩
      intro key table fault _ hcreate _
      obtain ⟨hkey, rfl⟩ := Prod.mk.inj (create.symm.trans hcreate)
      cases hkey
      rw [kept.table]
      exact ⟨nothing, (AppendingTable.created (ready empty).sound create).1, caches, count⟩
  | made empty create planned kept caches plan count =>
      refine ⟨by simp [empty], by simp [create], by simp [planned], ?_⟩
      intro key table _ hcreate _
      obtain ⟨hkey, rfl⟩ := Prod.mk.inj (create.symm.trans hcreate)
      cases hkey
      rw [kept.table, caches]
      have hgains := (AppendingTable.created (ready empty).sound create).1
      exact ⟨_, rfl, rfl, hgains, Caches.gains_put empty rfl, count⟩

/-! ## The ways of a lookup -/

/-- What a lookup does when it was let in. -/
def follow (a : Atlas σ) (create : Bool) : Way → Answer σ (Option SubSpace)
  | .space space => a.lookupSpace space create
  | .bank context frame =>
    let (r, b) := a.bank context frame create
    (r, b.report)
  | .object object frame =>
    let (r, b) := a.throughObject object frame create
    (r, b.report)

/-- A lookup follows its way, or is turned away with nothing touched. -/
inductive Goes (a : Atlas σ) (create : Bool) :
    Except SpaceError (Option Way) → Answer σ (Option SubSpace) → Prop
  | follow (way : Way) : Goes a create (.ok (some way)) (a.follow create way)
  | away {w : Except SpaceError (Option Way)} {r : Except SpaceError (Option SubSpace)}
      {b : Atlas σ} (nowhere : ∀ way, w ≠ .ok (some way)) (nothing : ∀ x, r ≠ .ok (some x))
      (idle : Idle a b) : Goes a create w (r, b)

theorem goes_register (a : Atlas σ) (key : RegisterKey) (create : Bool) :
    Goes a create (.ok (a.registerWay key)) (a.lookupRegister key create) := by
  unfold registerWay lookupRegister
  split
  · exact .away (by simp) (by simp) (idle_note a _)
  · cases key with
    | frame context frame => exact .follow (.bank context frame)
    | object object frame => exact .follow (.object object frame)

theorem goes_context (a : Atlas σ) (context : ExecutionContext) (frame : UInt32) (create : Bool) :
    Goes a create (a.contextWay context frame) (a.lookupContext context frame create) := by
  unfold contextWay lookupContext
  split
  · exact .away (by simp) (by simp) (idle_note a _)
  · next hcontexts =>
      split
      · exact .away (by simp) (by simp) (.refl a)
      · cases a.registerKey context frame with
        | error e => exact .away (by simp [Except.map]) (by simp) (.refl a)
        | ok key =>
            have hgoes := goes_register a key create
            rw [registerWay, if_neg hcontexts] at hgoes
            exact hgoes

theorem goes_ask (a : Atlas σ) (q : Query) (create : Bool) :
    Goes a create (a.way q) (a.ask q create) := by
  cases q with
  | request request =>
      obtain ⟨space, context, frame⟩ := request
      cases context with
      | none => exact .follow (.space space)
      | some context => exact goes_context a context frame create
  | space space => exact .follow (.space space)
  | context context frame => exact goes_context a context frame create
  | frame frame =>
      cases frame with
      | object object => exact goes_register a (.object object 0) create
      | level context level => exact goes_context a context level create
  | register key => exact goes_register a key create

theorem ask_of_way {way : Way} (h : a.way q = .ok (some way)) :
    a.ask q create = a.follow create way := by
  have hgoes := goes_ask a q create
  rw [h] at hgoes
  generalize a.ask q create = answer at hgoes
  cases hgoes with
  | follow way => rfl
  | away nowhere nothing idle => exact absurd rfl (nowhere way)

theorem ask_away (nowhere : ∀ way, a.way q ≠ .ok (some way)) : Idle a (a.ask q create).2 := by
  have hgoes := goes_ask a q create
  generalize a.way q = w at hgoes nowhere
  generalize a.ask q create = answer at hgoes
  cases hgoes with
  | follow way => exact absurd rfl (nowhere way)
  | away _ nothing idle => exact idle

/-! ### Through an object -/

/-- An answer is kept for an object, if it is a sub-space. -/
def keepAnswer (a : Atlas σ) (object : ObjectRef) (frame : UInt32) :
    Except SpaceError (Option SubSpace) → Atlas σ
  | .ok (some x) => a.remember object frame x
  | _ => a

theorem throughObject_of_hit {object : ObjectRef} {frame : UInt32} {x : SubSpace}
    (hit : a.objectHit object frame = some x) :
    a.throughObject object frame create = (.ok (some x), a) := by
  unfold throughObject
  rw [hit]

theorem throughObject_of_nowhere {object : ObjectRef} {frame : UInt32}
    (unknown : a.objectHit object frame = none) (nowhere : a.container? object frame = none) :
    a.throughObject object frame create = (.ok none, (a.container object frame).2) := by
  rw [← container_fst] at nowhere
  unfold throughObject
  rw [unknown]
  dsimp only
  revert nowhere
  generalize a.container object frame = answer
  obtain ⟨found, b⟩ := answer
  rintro rfl
  rfl

theorem throughObject_of_leads {object container : ObjectRef} {frame : UInt32}
    {r : Except SpaceError (Option SubSpace)} (unknown : a.objectHit object frame = none)
    (leads : a.container? object frame = some container)
    (slot : (a.container object frame).2.containerSpace container create = (r, c)) :
    a.throughObject object frame create = (r, c.keepAnswer object frame r) := by
  rw [← container_fst] at leads
  unfold throughObject
  rw [unknown]
  dsimp only
  revert leads slot
  generalize a.container object frame = answer
  obtain ⟨found, b⟩ := answer
  rintro rfl slot
  dsimp only at slot ⊢
  rw [slot]
  rcases r with e | _ | x <;> rfl

omit [EntryTable σ] in
theorem keepAnswer_of_nothing {object : ObjectRef} {frame : UInt32}
    (nothing : ∀ x, r ≠ .ok (some x)) : a.keepAnswer object frame r = a := by
  unfold keepAnswer
  split
  · next x => exact absurd rfl (nothing x)
  · rfl

theorem Outcome.keepAnswer (h : a.Outcome t r b) (object : ObjectRef) (frame : UInt32) :
    a.Outcome t r (b.keepAnswer object frame r) := by
  unfold Atlas.keepAnswer
  split
  · exact h.later rfl rfl rfl
  · exact h

/-- The slot of a container is come to if its overlay can be had and is admitted. -/
theorem filledForContainer_outcome [AppendingTable σ] {container : ObjectRef}
    {space : AddressSpace}
    (ready : a.caches.at? (.memory space) = none → AppendingTable.Ready a.table)
    (overlay : (a.overlaid container).space = .ok space)
    (admitted : (a.overlaid container).directory.Admits space) :
    a.Outcome (.ofSpace space) (a.filledForContainer container).1
      (a.filledForContainer container).2 := by
  have hoverlay := untouched_overlay a container.path.text
  have hfst := overlay_fst_eq_ok_iff.mpr overlay
  rw [← directory_overlay] at admitted
  unfold filledForContainer
  revert hoverlay hfst admitted
  generalize a.overlay container.path.text = answer
  obtain ⟨r, b⟩ := answer
  rintro admitted hoverlay rfl
  have hcheck := idle_check b space
  have hok := (check_eq_ok_iff b space).mpr admitted
  dsimp only
  revert hcheck hok
  generalize b.check space = answer
  obtain ⟨r, c⟩ := answer
  rintro hcheck rfl
  have hbefore := hoverlay.trans hcheck.untouched
  rw [← hbefore.table, ← hbefore.caches] at ready
  exact .of_untouched hbefore (Filled.outcome ready (fillSlot_spec c (.ofSpace space)))

theorem filledForContainer_untouched {container : ObjectRef}
    (barred : ∀ space, (a.overlaid container).space = .ok space →
      ¬(a.overlaid container).directory.Admits space) :
    (∀ x, (a.filledForContainer container).1 ≠ .ok (some x)) ∧
      Untouched a (a.filledForContainer container).2 := by
  have hoverlay := untouched_overlay a container.path.text
  have hfst : ∀ space, (a.overlay container.path.text).1 = .ok (some space) →
      ¬(a.overlay container.path.text).2.trace.directory.Admits space := by
    intro space hspace
    rw [directory_overlay]
    exact barred space (overlay_fst_eq_ok_iff.mp hspace)
  unfold filledForContainer
  revert hoverlay hfst
  generalize a.overlay container.path.text = answer
  obtain ⟨e | _ | space, b⟩ := answer
  · exact fun hoverlay _ => ⟨by simp, hoverlay⟩
  · exact fun hoverlay _ => ⟨by simp, hoverlay⟩
  · intro hoverlay hfst
    have hcheck := idle_check b space
    have hok := mt (check_eq_ok_iff b space).mp (hfst space rfl)
    dsimp only
    revert hcheck hok
    generalize b.check space = answer
    obtain ⟨e | _, c⟩ := answer
    · exact fun hcheck _ => ⟨by simp, hoverlay.trans hcheck.untouched⟩
    · exact fun _ hok => absurd rfl hok

/-! ### To a space -/

theorem lookupSpace_outcome [AppendingTable σ] {space : AddressSpace}
    (ready : a.caches.at? (.memory space) = none → AppendingTable.Ready a.table)
    (admitted : a.trace.directory.Admits space) :
    a.Outcome (.ofSpace space) (a.lookupSpace space true).1 (a.lookupSpace space true).2 := by
  have hcheck := idle_check a space
  have hok := (check_eq_ok_iff a space).mpr admitted
  unfold lookupSpace
  revert hcheck hok
  generalize a.check space = answer
  obtain ⟨r, b⟩ := answer
  rintro hcheck rfl
  rw [← hcheck.table, ← hcheck.caches] at ready
  exact .of_untouched hcheck.untouched
    (Filled.outcome ready (fillSlot_spec b (.ofSpace space))).report

theorem lookupSpace_idle {space : AddressSpace} (unadmitted : ¬a.trace.directory.Admits space) :
    Idle a (a.lookupSpace space create).2 := by
  have hcheck := idle_check a space
  have hok := mt (check_eq_ok_iff a space).mp unadmitted
  unfold lookupSpace
  revert hcheck hok
  generalize a.check space = answer
  obtain ⟨e | _, b⟩ := answer
  · exact fun hcheck _ => hcheck
  · exact fun _ hok => absurd rfl hok

/-! ## What is kept for objects -/

/-- What is kept for objects has not changed, or it has got the answer of a lookup through an object
for which nothing was kept. -/
structure Remembered (a : Atlas σ) (q : Query) (r : Except SpaceError (Option SubSpace))
    (b : Atlas σ) : Prop where
  nothing : (∀ x, r ≠ .ok (some x)) → b.registry.byObject = a.registry.byObject
  answer : ∀ x, r = .ok (some x) → b.registry.byObject = a.registry.byObject ∨
    ∃ object frame, a.way q = .ok (some (.object object frame)) ∧
      a.objectHit object frame = none ∧
      b.registry.byObject = a.registry.byObject.insert ⟨object.id, frame⟩ x

omit [EntryTable σ] in
theorem Remembered.report (h : a.Remembered q r b) : a.Remembered q r b.report := by
  have hreport := (idle_report b).byObject
  constructor
  · rw [hreport]
    exact h.nothing
  · rw [hreport]
    exact h.answer

theorem throughObject_untouched {object : ObjectRef} {frame : UInt32}
    (barred : ∀ container, a.objectHit object frame = none →
      a.container? object frame = some container → ∀ space,
        (a.overlaid container).space = .ok space →
          ¬(a.overlaid container).directory.Admits space) :
    Untouched a (a.throughObject object frame true).2 := by
  have hcontainer := (idle_container a object frame).untouched
  cases hhit : a.objectHit object frame with
  | some x =>
      rw [throughObject_of_hit hhit]
      exact .refl a
  | none =>
      cases hleads : a.container? object frame with
      | none =>
          rw [throughObject_of_nowhere hhit hleads]
          exact hcontainer
      | some container =>
          have hbarred := barred container hhit hleads
          rw [← overlaid_container a object container frame] at hbarred
          obtain ⟨hnothing, huntouched⟩ := filledForContainer_untouched hbarred
          rw [throughObject_of_leads hhit hleads rfl]
          show Untouched a (((a.container object frame).2.filledForContainer container).2.keepAnswer
            object frame ((a.container object frame).2.filledForContainer container).1)
          rw [keepAnswer_of_nothing hnothing]
          exact hcontainer.trans huntouched

/-- A lookup that is stopped touches nothing. -/
theorem Stops.untouched (h : a.Stops q) : Untouched a (a.ask q true).2 := by
  have hobject : ∀ object frame, a.way q = .ok (some (.object object frame)) →
      Untouched a (a.throughObject object frame true).2 → Untouched a (a.ask q true).2 := by
    intro object frame way huntouched
    rw [ask_of_way way]
    exact huntouched.trans (idle_report _).untouched
  cases h with
  | refused way => exact (ask_away (by simp [way])).untouched
  | withoutContexts way => exact (ask_away (by simp [way])).untouched
  | unadmitted way unadmitted =>
      rw [ask_of_way way]
      exact (lookupSpace_idle unadmitted).untouched
  | known way known => exact hobject _ _ way (throughObject_untouched (by simp [known]))
  | unresolved way unknown nowhere =>
      exact hobject _ _ way (throughObject_untouched (by simp [nowhere]))
  | noOverlay seeks failed =>
      refine hobject _ _ seeks.way (throughObject_untouched ?_)
      intro container' _ leads space overlay
      obtain rfl := Option.some.inj (seeks.leads.symm.trans leads)
      rw [failed] at overlay
      cases overlay
  | foreignOverlay seeks overlay unadmitted =>
      refine hobject _ _ seeks.way (throughObject_untouched ?_)
      intro container' _ leads space' overlay'
      obtain rfl := Option.some.inj (seeks.leads.symm.trans leads)
      obtain rfl := Except.ok.inj (overlay.symm.trans overlay')
      exact unadmitted

theorem Arrives.outcome [AppendingTable σ] {t : Target}
    (ready : a.caches.at? t.slot = none → AppendingTable.Ready a.table) (h : a.Arrives q t) :
    a.Outcome t (a.ask q true).1 (a.ask q true).2 := by
  cases h with
  | space way admitted =>
      rw [ask_of_way way]
      exact lookupSpace_outcome ready admitted
  | bank way =>
      rw [ask_of_way way]
      exact (Filled.outcome ready (fillSlot_spec a (.ofBank _ _ _))).report
  | @container object container frame space seeks overlay admitted =>
      rw [ask_of_way seeks.way]
      have hcontainer := (idle_container a object frame).untouched
      rw [← hcontainer.table, ← hcontainer.caches] at ready
      rw [← overlaid_container a object container frame] at overlay admitted
      have houtcome := filledForContainer_outcome ready overlay admitted
      show a.Outcome _ (a.throughObject object frame true).1
        (a.throughObject object frame true).2.report
      rw [throughObject_of_leads seeks.unknown seeks.leads rfl]
      exact ((houtcome.of_untouched hcontainer).keepAnswer object frame).report

theorem table_loadTable (a : Atlas σ) : a.loadTable.2.table = (EntryTable.rows a.table).2 := by
  have hread : a.readRows.2.table = (EntryTable.rows a.table).2 := (idle_settle _ _ _).table
  unfold loadTable
  revert hread
  generalize a.readRows = answer
  obtain ⟨e | _ | rows, b⟩ := answer <;> intro hread
  · exact hread
  · exact hread
  · apply fill_preserves (P := fun c => c.table = (EntryTable.rows a.table).2)
    · intro c d key entry r _ hrow hc
      exact hrow.kept.table.trans hc
    · intro c keys hc
      exact hc
    · exact hread

variable [AppendingTable σ]

theorem Idle.sound (h : Idle a b) (ha : AppendingTable.Sound a.table) :
    AppendingTable.Sound b.table := by
  rw [h.table]
  exact ha

theorem stable_sound (q : Query) (create : Bool) :
    Stable q create fun a : Atlas σ => AppendingTable.Sound a.table where
  idle hidle ha := hidle.sound ha
  mint _ hminted ha := hminted.idle.sound ha
  fill _ _ hfilled ha := by
    cases hfilled with
    | held held => exact ha
    | noRow empty create nothing idle => exact idle.sound ((AppendingTable.refused create).2 ha)
    | noSpace empty create planned nothing kept caches plan count =>
        rw [kept.table]
        exact (AppendingTable.created ha create).2
    | made empty create planned kept caches plan count =>
        rw [kept.table]
        exact (AppendingTable.created ha create).2
  remember _ _ _ ha := ha

theorem sound_loadTable (ha : AppendingTable.Sound a.table) :
    AppendingTable.Sound a.loadTable.2.table := by
  rw [table_loadTable]
  exact AppendingTable.rows_sound ha

/-- **No call makes a table unsound,** so what lookups change can be said of all of a run. -/
theorem run_sound (ha : AppendingTable.Sound a.table) (calls : List Call) :
    AppendingTable.Sound (a.run calls).table := by
  apply run_preserves (P := fun b => AppendingTable.Sound b.table) _ ha
  intro b c _ hb
  cases c with
  | ask q create => exact (stable_sound q create).ask hb
  | load => exact (idle_report _).sound (sound_loadTable hb)
  | invalidate =>
      have hclear : AppendingTable.Sound b.clear.table := AppendingTable.invalidate_sound hb
      exact invalidate_preserves (P := fun d => AppendingTable.Sound d.table) Idle.sound
        (fun hd => hd) (sound_loadTable hclear)

end Atlas
end TraceAtlas
