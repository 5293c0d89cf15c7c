import TraceAtlas.Proofs.CreatedOnce
import TraceAtlas.Proofs.FileTable

/-!
# Racing lookups create once

Lookups through objects look for what was found before and keep what they found outside the section
that creates, so several of them can be on the way to one slot at once, next to others that ask for
the slot itself. Whatever turns they take, a slot is filled once.

`Underway` says of each lookup what it can count on at the stage it has reached. Since slots and the
directory only grow, it can still count on it after the turns of others. `advance_createdOnce` is
the step, one case for each stage, and `Race.run_createdOnce` the run, in which no turn is refused
the row that it asks for (`Race.Granted`).
-/

namespace TraceAtlas
namespace Atlas

variable {σ : Type} {a b c : Atlas σ} {rows new : List Row} {q : Query}

/-! ## What a lookup can count on -/

/-- What a lookup may be answered by the time of `b`, if the race began on `a`. -/
inductive Served (a b : Atlas σ) (q : Query) : Except SpaceError (Option SubSpace) → Prop
  | given {p : SlotKey} {x : SubSpace} (slot : b.slotFor? q = some p)
      (held : b.caches.at? p = some x) : Served a b q (.ok (some x))
  /-- Register banks are not kept here. -/
  | unkept (way : b.way q = .ok none) : Served a b q (.ok none)
  | containerless {object : ObjectRef} {frame : UInt32}
      (way : b.way q = .ok (some (.object object frame)))
      (leads : b.container? object frame = none) : Served a b q (.ok none)
  | barred {e : SpaceError} (way : b.way q = .error e) : Served a b q (.error e)
  /-- The space that the lookup came down to was refused, though it was filed, or before it was if
  the lookup names it. -/
  | refused {c : Atlas σ} {space : AddressSpace} {e : SpaceError} (after : Grown a c)
      (before : Grown c b) (slot : c.slotFor? q = some (.memory space))
      (filed : q.space? = some space ∨ c.trace.directory.find? space.name = some space)
      (check : (c.check space).1 = .error e) : Served a b q (.error e)

/-- What a lookup can count on by the time of `b`, for each stage that it may have reached. -/
inductive Underway (a b : Atlas σ) (q : Query) : Stage → Prop
  | asked : Underway a b q (.asked q)
  | admitted {way : Way} (way_eq : b.way q = .ok (some way))
      (admits : ∀ space, way = .space space → b.trace.directory.Admits space) :
      Underway a b q (.admitted way)
  | missed {object : ObjectRef} {frame : UInt32}
      (way_eq : b.way q = .ok (some (.object object frame))) : Underway a b q (.missed object frame)
  | contained {object container : ObjectRef} {frame : UInt32}
      (way_eq : b.way q = .ok (some (.object object frame)))
      (leads : b.container? object frame = some container) :
      Underway a b q (.contained object frame container)
  | found {object : ObjectRef} {frame : UInt32} {p : SlotKey} {x : SubSpace}
      (way_eq : b.way q = .ok (some (.object object frame)))
      (slot : b.slotOn? (.object object frame) = some p) (held : b.caches.at? p = some x) :
      Underway a b q (.found object frame x)
  | settled {r : Except SpaceError (Option SubSpace)} (served : Served a b q r) :
      Underway a b q (.settled r)
  | returned {r : Except SpaceError (Option SubSpace)} (served : Served a b q r) :
      Underway a b q (.returned r)

theorem Served.of_grown {r : Except SpaceError (Option SubSpace)} (h : Served a b q r)
    (grown : Grown b c) : Served a c q r := by
  cases h with
  | given slot held => exact .given (grown.slotFor?_mono slot) (grown.slots _ _ held)
  | unkept way => exact .unkept ((grown.way_eq q).trans way)
  | containerless way leads =>
      exact .containerless ((grown.way_eq q).trans way) ((grown.container?_eq _ _).trans leads)
  | barred way => exact .barred ((grown.way_eq q).trans way)
  | refused after before slot filed check =>
      exact .refused after (before.trans grown) slot filed check

/-- Nobody who comes down to a slot goes away with nothing, if the space is admitted: at the end,
and from the start if the lookup names it. -/
theorem Served.given_of_admits {r : Except SpaceError (Option SubSpace)} {p : SlotKey}
    (h : Served a b q r) (slot : b.slotFor? q = some p)
    (admits : ∀ space, p = .memory space → b.trace.directory.Admits space ∧
      (q.space? = some space → a.trace.directory.Admits space)) :
    ∃ x, r = .ok (some x) ∧ b.caches.at? p = some x := by
  cases h with
  | given slot' held =>
      obtain rfl := Option.some.inj (slot'.symm.trans slot)
      exact ⟨_, rfl, held⟩
  | unkept way => simp [slotFor?, way] at slot
  | containerless way leads => simp [slotFor?, way, slotOn?, leads] at slot
  | barred way => simp [slotFor?, way] at slot
  | @refused c space e after before slot' filed check =>
      obtain rfl := Option.some.inj ((before.slotFor?_mono slot').symm.trans slot)
      obtain ⟨hend, hstart⟩ := admits space rfl
      have hadmits : c.trace.directory.Admits space := by
        rcases filed with named | hfind
        · exact after.directory.admits (hstart named)
        · -- what is filed is refused for its name or its kind, and stays so
          have hvouches := hend.1
          simp only [Directory.vouchesFor, Bool.and_eq_true, before.directory.refused] at hvouches
          refine ⟨?_, hend.2⟩
          simp only [Directory.vouchesFor, hfind, BEq.rfl, Bool.or_true, Bool.true_and]
          exact hvouches.2
      rw [(check_eq_ok_iff c space).mpr hadmits] at check
      cases check

/-- The turns of others leave a lookup what it can count on. -/
theorem Underway.of_grown {stage : Stage} (h : Underway a b q stage) (grown : Grown b c) :
    Underway a c q stage := by
  cases h with
  | asked => exact .asked
  | admitted way_eq admits =>
      exact .admitted ((grown.way_eq q).trans way_eq) fun space hspace =>
        grown.directory.admits (admits space hspace)
  | missed way_eq => exact .missed ((grown.way_eq q).trans way_eq)
  | contained way_eq leads =>
      exact .contained ((grown.way_eq q).trans way_eq) ((grown.container?_eq _ _).trans leads)
  | found way_eq slot held =>
      exact .found ((grown.way_eq q).trans way_eq) (grown.slotOn?_mono slot)
        (grown.slots _ _ held)
  | settled served => exact .settled (served.of_grown grown)
  | returned served => exact .returned (served.of_grown grown)

/-! ## Letting a lookup in -/

theorem enterSpace_underway {space : AddressSpace} (started : Grown a b)
    (way : b.way q = .ok (some (.space space))) (named : q.space? = some space) :
    Idle b (b.enterSpace space).2 ∧
      Underway a (b.enterSpace space).2 q (b.enterSpace space).1 := by
  have hidle := idle_check b space
  have hok := check_eq_ok_iff b space
  have herror : ∀ e, (b.check space).1 = .error e → Served a b q (.error e) := by
    intro e he
    refine .refused started (.refl b) ?_ (.inl named) he
    rw [slotFor?_of_way way]
    rfl
  unfold enterSpace
  revert hidle hok herror
  generalize b.check space = answer
  obtain ⟨e | _, c⟩ := answer <;> intro hidle hok herror
  · exact ⟨hidle, .returned ((herror e rfl).of_grown (.of_idle hidle))⟩
  · refine ⟨hidle, .admitted (((Grown.of_idle hidle).way_eq q).trans way) ?_⟩
    rintro _ ⟨⟩
    exact hidle.extends_directory.admits (hok.mp rfl)

theorem enterRegister_underway {key : RegisterKey} (way : b.way q = .ok (b.registerWay key)) :
    Idle b (b.enterRegister key).2 ∧
      Underway a (b.enterRegister key).2 q (b.enterRegister key).1 := by
  unfold registerWay at way
  unfold enterRegister
  split at way
  · next hcontexts =>
      rw [if_pos hcontexts]
      have hidle := idle_note b [.registersDisabled b.settings.name key]
      exact ⟨hidle, .returned (.unkept (((Grown.of_idle hidle).way_eq q).trans way))⟩
  · next hcontexts =>
      rw [if_neg hcontexts]
      exact ⟨.refl b, .admitted way fun space hspace => absurd hspace (key.way_ne_space space)⟩

theorem enterContext_underway {context : ExecutionContext} {frame : UInt32}
    (way : b.way q = b.contextWay context frame) :
    Idle b (b.enterContext context frame).2 ∧
      Underway a (b.enterContext context frame).2 q (b.enterContext context frame).1 := by
  unfold contextWay at way
  unfold enterContext
  split at way
  · next hcontexts =>
      rw [if_pos hcontexts]
      have hidle := idle_note b [.noContexts context.key b.settings.name]
      exact ⟨hidle, .returned (.unkept (((Grown.of_idle hidle).way_eq q).trans way))⟩
  · next hcontexts =>
      rw [if_neg hcontexts]
      split at way
      · next howns =>
          rw [if_pos howns]
          exact ⟨.refl b, .returned (.barred way)⟩
      · next howns =>
          rw [if_neg howns]
          cases hkey : b.registerKey context frame with
          | error e =>
              rw [hkey] at way
              exact ⟨.refl b, .returned (.barred way)⟩
          | ok key =>
              rw [hkey] at way
              apply enterRegister_underway
              rw [way, registerWay, if_neg hcontexts]
              rfl

theorem enter_underway (started : Grown a b) (q : Query) :
    Idle b (b.enter q).2 ∧ Underway a (b.enter q).2 q (b.enter q).1 := by
  cases q with
  | request request =>
      obtain ⟨space, context, frame⟩ := request
      cases context with
      | none => exact enterSpace_underway started rfl rfl
      | some context => exact enterContext_underway rfl
  | space space => exact enterSpace_underway started rfl rfl
  | context context frame => exact enterContext_underway rfl
  | frame frame =>
      cases frame with
      | object object => exact enterRegister_underway rfl
      | level context level => exact enterContext_underway rfl
  | register key => exact enterRegister_underway rfl

/-! ## One section -/

variable [EntryTable σ]

theorem grown_advance (a : Atlas σ) (stage : Stage) : Grown a (a.advance stage).2 := by
  cases stage with
  | asked q => exact .of_idle (enter_underway (.refl a) q).1
  | admitted way =>
      cases way with
      | space space => exact .of_filled (fillSlot_spec a (.ofSpace space))
      | bank context frame => exact .of_filled (fillSlot_spec a (.ofBank _ context frame))
      | object object frame =>
          simp only [advance]
          split <;> exact .refl a
  | missed object frame =>
      have hidle := idle_container a object frame
      simp only [advance]
      revert hidle
      generalize a.container object frame = answer
      obtain ⟨_ | container, b⟩ := answer <;> exact Grown.of_idle
  | contained object frame container =>
      have hgrown := grown_filledForContainer a container
      simp only [advance]
      revert hgrown
      generalize a.filledForContainer container = answer
      obtain ⟨_ | _ | x, b⟩ := answer <;> exact id
  | found object frame x => exact .of_world ⟨rfl, rfl, rfl, rfl, rfl⟩ fun _ _ hx => hx
  | settled r => exact .of_idle (idle_report a)
  | returned r => exact .refl a

/-- The slot that the next section of a lookup gets or fills, if it does, and the atlas on which it
does so. -/
def slotAhead? (a : Atlas σ) : Stage → Option (Target × Atlas σ)
  | .admitted (.space space) => some (.ofSpace space, a)
  | .admitted (.bank context frame) =>
    some (.ofBank a.settings.language.registerSpace context frame, a)
  | .contained _ _ container => a.containerSlot? container
  | _ => none

/-- The next section of a lookup is not refused the row that it asks for, if it asks for one. -/
def Granted (a : Atlas σ) (stage : Stage) : Prop :=
  ∀ p ∈ a.slotAhead? stage, p.2.Grants p.1

instance (a : Atlas σ) (stage : Stage) : Decidable (a.Granted stage) :=
  inferInstanceAs (Decidable (∀ p ∈ a.slotAhead? stage, p.2.Grants p.1))

variable [LawfulTable σ]

/-- The section that gets or makes what a slot holds. -/
theorem fillSlot_underway {t : Target} (favorable : b.Favorable) (tidy : b.Tidy rows)
    (grants : b.Grants t) (home : b.home? t.entry = some t.slot) (knows : b.Knows t.entry)
    (slot : b.slotFor? q = some t.slot) :
    ∃ new, CreatedOnce b (b.fillSlot t).2 rows new ∧
      Underway a (b.fillSlot t).2 q (.settled (b.fillSlot t).1) := by
  obtain ⟨x, new, hanswer, hheld, hcreated⟩ :=
    (fillSlot_spec b t).createdOnce favorable tidy grants home knows
  refine ⟨new, hcreated, ?_⟩
  rw [hanswer]
  exact .settled (.given (hcreated.grown.slotFor?_mono slot) hheld)

theorem admitted_underway {way : Way} (favorable : b.Favorable) (tidy : b.Tidy rows)
    (granted : b.Granted (.admitted way))
    (proper : q.Proper b.trace.contexts) (native : q.Native b.trace.objects)
    (sentinel : b.trace.directory.find? noAddressName = none)
    (way_eq : b.way q = .ok (some way))
    (admits : ∀ space, way = .space space → b.trace.directory.Admits space) :
    ∃ new, CreatedOnce b (b.advance (.admitted way)).2 rows new ∧
      Underway a (b.advance (.admitted way)).2 q (b.advance (.admitted way)).1 := by
  have hslot := slotFor?_of_way way_eq
  cases routes_of_way way_eq with
  | @space space named =>
      have hspace : space = .noAddress ∨ b.trace.directory.find? space.name = some space := by
        by_cases hno : space.isNoAddress = true
        · exact .inl (proper.sentinel space named hno)
        · exact .inr ((admits space rfl).find?_eq (by simpa using hno))
      exact fillSlot_underway (t := .ofSpace space) favorable tidy (granted _ rfl)
        (home?_ofSpace sentinel hspace) (.inl rfl) hslot
  | @bank context frame contexts owned =>
      have howns : ContextDirectory.owns b.trace.contexts context = true :=
        owned.elim id (proper.known context)
      have hknows : (b.context? context.key).isSome = true := by
        unfold context?
        rw [if_pos contexts]
        have hget : b.trace.contexts.context context.key = some context := by
          simpa [ContextDirectory.owns] using howns
        rw [hget]
        rfl
      exact fillSlot_underway (t := .ofBank _ context frame) favorable tidy (granted _ rfl)
        (home?_ofBank (favorable.keys context howns) frame) (.inr hknows) hslot
  | @object object frame named =>
      simp only [advance]
      cases hhit : b.objectHit object frame with
      | some x =>
          obtain ⟨p, hp, hx⟩ := tidy.objects object frame x hhit (native object named)
          exact ⟨[], .refl favorable tidy, .settled (.given (hslot.trans hp) hx)⟩
      | none => exact ⟨[], .refl favorable tidy, .missed way_eq⟩

theorem missed_underway {object : ObjectRef} {frame : UInt32} (favorable : b.Favorable)
    (tidy : b.Tidy rows) (way_eq : b.way q = .ok (some (.object object frame))) :
    ∃ new, CreatedOnce b (b.advance (.missed object frame)).2 rows new ∧
      Underway a (b.advance (.missed object frame)).2 q (b.advance (.missed object frame)).1 := by
  have hidle := idle_container b object frame
  have hfst := container_fst b object frame
  simp only [advance]
  revert hidle hfst
  generalize b.container object frame = answer
  obtain ⟨found, c⟩ := answer
  rintro hidle hfst
  have hcreated : CreatedOnce b c rows [] := .of_idle favorable tidy hidle
  have hway := (hcreated.grown.way_eq q).trans way_eq
  have hleads := (hcreated.grown.container?_eq object frame).trans hfst.symm
  cases found with
  | none => exact ⟨[], hcreated, .settled (.containerless hway hleads)⟩
  | some container => exact ⟨[], hcreated, .contained hway hleads⟩

theorem contained_underway {object container : ObjectRef} {frame : UInt32}
    (favorable : b.Favorable) (tidy : b.Tidy rows)
    (granted : b.Granted (.contained object frame container)) (started : Grown a b)
    (way_eq : b.way q = .ok (some (.object object frame)))
    (leads : b.container? object frame = some container)
    (sentinel : (b.advance (.contained object frame container)).2.trace.directory.find?
      noAddressName = none) :
    ∃ new, CreatedOnce b (b.advance (.contained object frame container)).2 rows new ∧
      Underway a (b.advance (.contained object frame container)).2 q
        (b.advance (.contained object frame container)).1 := by
  have hfilled := filledForContainer_createdOnce favorable tidy container granted
  have hslot : ∀ {c : Atlas σ} {space : AddressSpace}, Grown b c →
      c.trace.directory.find? container.path.text = some space →
        c.slotOn? (.object object frame) = some (.memory space) := by
    intro c space hgrown hfind
    simp only [slotOn?, hgrown.container?_eq, leads, hfind, Option.bind_some, Option.map_some]
  simp only [advance] at sentinel ⊢
  revert hfilled
  generalize b.filledForContainer container = answer at sentinel ⊢
  obtain ⟨r, c⟩ := answer
  intro hfilled
  have hsentinel : c.trace.directory.find? noAddressName = none := by
    rcases r with _ | _ | _ <;> exact sentinel
  obtain ⟨new, hcreated, hserved⟩ := hfilled hsentinel
  have hway := (hcreated.grown.way_eq q).trans way_eq
  refine ⟨new, ?_⟩
  cases hserved with
  | given overlay held =>
      exact ⟨hcreated, .found hway (hslot hcreated.grown overlay) held⟩
  | refused after before overlay named check =>
      refine ⟨hcreated, .settled (.refused (started.trans after) before ?_ (.inr ?_) check)⟩
      · rw [slotFor?_of_way ((after.way_eq q).trans way_eq)]
        exact hslot after overlay
      · rw [named]
        exact overlay

/-- **What one section creates, it creates once, and it brings its lookup on the way.** -/
theorem advance_createdOnce {stage : Stage} (favorable : b.Favorable) (tidy : b.Tidy rows)
    (granted : b.Granted stage)
    (proper : q.Proper b.trace.contexts) (native : q.Native b.trace.objects)
    (started : Grown a b) (h : Underway a b q stage)
    (sentinel : (b.advance stage).2.trace.directory.find? noAddressName = none) :
    ∃ new, CreatedOnce b (b.advance stage).2 rows new ∧
      Underway a (b.advance stage).2 q (b.advance stage).1 := by
  have hsentinel := (grown_advance b stage).directory.find?_eq_none sentinel
  cases h with
  | asked =>
      obtain ⟨hidle, hunderway⟩ := enter_underway started q
      exact ⟨[], .of_idle favorable tidy hidle, hunderway⟩
  | admitted way_eq admits =>
      exact admitted_underway favorable tidy granted proper native hsentinel way_eq admits
  | missed way_eq => exact missed_underway favorable tidy way_eq
  | contained way_eq leads =>
      exact contained_underway favorable tidy granted started way_eq leads sentinel
  | @found object frame p x way_eq slot held =>
      cases routes_of_way way_eq with
      | object named =>
          have hcreated := CreatedOnce.remember favorable tidy (native object named) slot held
          have hslot := (slotFor?_of_way way_eq).trans slot
          exact ⟨[], hcreated, .settled (.given (hcreated.grown.slotFor?_mono hslot) held)⟩
  | settled served =>
      have hcreated := CreatedOnce.of_idle favorable tidy (idle_report b)
      exact ⟨[], hcreated, .returned (served.of_grown hcreated.grown)⟩
  | returned served => exact ⟨[], .refl favorable tidy, .returned served⟩

end Atlas

/-! ## Races -/

namespace Race

variable {σ : Type} [EntryTable σ]

theorem grown_turn (race : Race σ) (i : Nat) : race.atlas.Grown (race.turn i).atlas := by
  unfold turn
  split
  · exact .refl _
  · exact Atlas.grown_advance _ _

theorem grown_run (race : Race σ) (schedule : List Nat) :
    race.atlas.Grown (race.run schedule).atlas := by
  unfold run
  induction schedule generalizing race with
  | nil => exact .refl _
  | cons i schedule ih => exact (race.grown_turn i).trans (ih (race.turn i))

/-- No turn of the schedule is refused the row that it asks for. -/
def Granted (race : Race σ) : (schedule : List Nat) → Prop
  | [] => True
  | i :: schedule =>
    (∀ stage ∈ race.stages[i]?, race.atlas.Granted stage) ∧ (race.turn i).Granted schedule

instance decidableGranted (race : Race σ) : (schedule : List Nat) →
    Decidable (race.Granted schedule)
  | [] => inferInstanceAs (Decidable True)
  | i :: schedule =>
    have := decidableGranted (race.turn i) schedule
    inferInstanceAs (Decidable (_ ∧ _))

/-- A table in memory refuses nothing. -/
theorem granted_memory (race : Race MemoryTable) (schedule : List Nat) : race.Granted schedule := by
  induction schedule generalizing race with
  | nil => trivial
  | cons i schedule ih => exact ⟨fun _ _ _ _ _ => rfl, ih (race.turn i)⟩

variable [LawfulTable σ] {a : Atlas σ} {rows new : List Row} {queries : List Query}
  {race : Race σ}

/-- The race has come from `a` to where it is by creating `new` rows, and each of its lookups can
count on what its stage says. -/
structure Sound (a : Atlas σ) (rows : List Row) (queries : List Query) (race : Race σ)
    (new : List Row) : Prop where
  created : a.CreatedOnce race.atlas rows new
  underway : ∀ (i : Nat) (stage : Stage), race.stages[i]? = some stage →
    ∃ q, queries[i]? = some q ∧ a.Underway race.atlas q stage

theorem sound_start (favorable : a.Favorable) (tidy : a.Tidy rows) (queries : List Query) :
    Sound a rows queries (start a queries) [] where
  created := .refl favorable tidy
  underway i stage hstage := by
    obtain ⟨q, hq, rfl⟩ : ∃ q, queries[i]? = some q ∧ Stage.asked q = stage := by
      simpa [start] using hstage
    exact ⟨q, hq, .asked⟩

theorem Sound.turn (h : Sound a rows queries race new)
    (proper : ∀ q ∈ queries, q.Proper a.trace.contexts)
    (native : ∀ q ∈ queries, q.Native a.trace.objects) (i : Nat)
    (granted : ∀ stage ∈ race.stages[i]?, race.atlas.Granted stage)
    (sentinel : (race.turn i).atlas.trace.directory.find? noAddressName = none) :
    ∃ new, Sound a rows queries (race.turn i) new := by
  have hstages := stages_turn race i
  unfold Race.turn at sentinel hstages ⊢
  cases hi : race.stages[i]? with
  | none => exact ⟨new, h⟩
  | some stage =>
      simp only [hi] at sentinel hstages ⊢
      obtain ⟨q, hq, hunderway⟩ := h.underway i stage hi
      have hmem := List.mem_of_getElem? hq
      have hproper : q.Proper race.atlas.trace.contexts := by
        rw [h.created.grown.contexts]
        exact proper q hmem
      have hnative : q.Native race.atlas.trace.objects := fun object named =>
        (ObjectTree.has_congr h.created.grown.nodes object).mpr (native q hmem object named)
      obtain ⟨more, hcreated, hnext⟩ := Atlas.advance_createdOnce h.created.favorable
        h.created.tidy (granted stage hi) hproper hnative h.created.grown hunderway sentinel
      refine ⟨new ++ more, h.created.trans hcreated, ?_⟩
      intro j stage' hj
      rw [hstages] at hj
      by_cases hij : i = j
      · rw [if_pos hij, ← hij, hi, Option.map_some] at hj
        cases hj
        exact ⟨q, hij ▸ hq, hnext⟩
      · -- the others have not moved
        rw [if_neg hij] at hj
        obtain ⟨q', hq', hunderway'⟩ := h.underway j stage' hj
        exact ⟨q', hq', hunderway'.of_grown hcreated.grown⟩

theorem Sound.run (h : Sound a rows queries race new)
    (proper : ∀ q ∈ queries, q.Proper a.trace.contexts)
    (native : ∀ q ∈ queries, q.Native a.trace.objects) (schedule : List Nat)
    (granted : race.Granted schedule)
    (sentinel : (race.run schedule).atlas.trace.directory.find? noAddressName = none) :
    ∃ new, Sound a rows queries (race.run schedule) new := by
  unfold Race.run at sentinel ⊢
  induction schedule generalizing race new with
  | nil => exact ⟨new, h⟩
  | cons i schedule ih =>
      -- what is not filed at the end is not filed now
      have hgrown : (race.turn i).atlas.Grown (schedule.foldl Race.turn (race.turn i)).atlas :=
        grown_run (race.turn i) schedule
      obtain ⟨new', hturn⟩ :=
        h.turn proper native i granted.1 (hgrown.directory.find?_eq_none sentinel)
      exact ih hturn granted.2 sentinel

/-- The lookup of `q` has returned with this answer. -/
def Returned (race : Race σ) (queries : List Query) (q : Query)
    (r : Except SpaceError (Option SubSpace)) : Prop :=
  ∃ i : Nat, queries[i]? = some q ∧ race.stages[i]? = some (.returned r)

/-- What is answered in a race: everybody who returned was served, nobody who came down to a slot
whose space is admitted went away with nothing, and those who came down to the same slot were given
the same sub-space. -/
structure Answered (a : Atlas σ) (queries : List Query) (race : Race σ) : Prop where
  served : ∀ q r, race.Returned queries q r → a.Served race.atlas q r
  given : ∀ q r p, race.Returned queries q r → race.atlas.slotFor? q = some p →
    (∀ space, p = .memory space → race.atlas.trace.directory.Admits space ∧
      (q.space? = some space → a.trace.directory.Admits space)) →
    ∃ x, r = .ok (some x) ∧ race.atlas.caches.at? p = some x
  shared : ∀ q q' p x y, race.Returned queries q (.ok (some x)) →
    race.Returned queries q' (.ok (some y)) → race.atlas.slotFor? q = some p →
      race.atlas.slotFor? q' = some p → x = y

theorem Sound.answered (h : Sound a rows queries race new) : Answered a queries race := by
  have hserved : ∀ q r, race.Returned queries q r → a.Served race.atlas q r := by
    rintro q r ⟨i, hq, hstage⟩
    obtain ⟨q', hq', hunderway⟩ := h.underway i _ hstage
    obtain rfl : q = q' := Option.some.inj (hq.symm.trans hq')
    cases hunderway with
    | returned served => exact served
  refine ⟨hserved, fun q r p hr => (hserved q r hr).given_of_admits, ?_⟩
  intro q q' p x y hx hy hp hp'
  cases hserved q _ hx with
  | given slot held =>
      cases hserved q' _ hy with
      | given slot' held' =>
          obtain rfl := Option.some.inj (slot.symm.trans hp)
          obtain rfl := Option.some.inj (slot'.symm.trans hp')
          exact Option.some.inj (held.symm.trans held')

/-- **However creating lookups interleave, they create once:** where no turn is refused its row, no
two rows hold one entry, every row is in its slot, and those who asked for the same were given the
same. Everybody who got six turns has returned. -/
theorem run_createdOnce (favorable : a.Favorable) (tidy : a.Tidy rows) (queries : List Query)
    (schedule : List Nat) (proper : ∀ q ∈ queries, q.Proper a.trace.contexts)
    (native : ∀ q ∈ queries, q.Native a.trace.objects)
    (granted : (start a queries).Granted schedule)
    (sentinel : ((start a queries).run schedule).atlas.trace.directory.find? noAddressName = none) :
    (∃ new, a.CreatedOnce ((start a queries).run schedule).atlas rows new) ∧
      Answered a queries ((start a queries).run schedule) ∧
      ∀ i < queries.length, 6 ≤ schedule.count i →
        ∃ r, ((start a queries).run schedule).stages[i]? = some (.returned r) := by
  obtain ⟨new, hsound⟩ :=
    (sound_start favorable tidy queries).run proper native schedule granted sentinel
  exact ⟨⟨new, hsound.created⟩, hsound.answered, fun i hi turns => run_returned a queries hi turns⟩

/-- An atlas with the row of one memory space, which is in its slot. -/
def oneRow : Atlas MemoryTable :=
  ((⟨{ settings := { name := "Memory" } }, { name := "MemorySpaces" }, .single⟩ :
    Atlas MemoryTable).ask (.space ⟨2, "ram", .memory, none⟩) true).2

theorem favorable_oneRow : oneRow.Favorable where
  keys := orderly_single.keys
  filed := orderly_single.filed
  offers := ⟨rfl, rfl⟩
  reliable := orderly_single.reliable

theorem tidy_oneRow : oneRow.Tidy [(0, .unbound "ram")] where
  holds := ⟨by decide +kernel, by decide +kernel⟩
  entries := by decide
  filled row hrow _ := by
    rw [List.mem_singleton.mp hrow]
    exact ⟨.memory ⟨2, "ram", .memory, none⟩,
      ⟨0, ⟨2, "ram", .memory, none⟩, none, ⟨0, .unbound "ram", "Memory_ram"⟩⟩,
      by decide +kernel, by decide +kernel⟩
  objects object frame x hget := by
    cases hget

/-- An atlas without rows on the file of a table. -/
def onDisk : Atlas FileOnDisk where
  registry := { settings := { name := "Memory" } }
  table :=
    { disk := (FileTable.openAt {} "/traces" "MemorySpaces").disk
      table := ⟨"MemorySpaces", FileTable.file "/traces" "MemorySpaces", some []⟩ }
  trace := .single

theorem favorable_onDisk : onDisk.Favorable where
  keys := orderly_single.keys
  filed := orderly_single.filed
  offers := ⟨rfl, rfl⟩
  reliable := orderly_single.reliable

theorem tidy_onDisk :
    @Atlas.Tidy _ _ (FileOnDisk.lawful "/traces" "MemorySpaces") onDisk [] := by
  let := FileOnDisk.lawful "/traces" "MemorySpaces"
  have hopen : (FileTable.openAt {} "/traces" "MemorySpaces").table = .ok onDisk.table.table := by
    decide +kernel
  have holds : LawfulTable.Holds onDisk.table [] := FileOnDisk.holds_of_openAt hopen rfl
  refine ⟨holds, .nil, by simp, ?_⟩
  intro object frame x hget
  cases hget

/-- Two lookups through one object both find nothing kept for it before either of them fills the
slot of its container. With a table in memory others ask meanwhile for a bank, for a space that is
there and for the overlay; a table in a file gives the one row that is asked for. -/
theorem run_createdOnce_interleaved :
    (let queries : List Query := [.frame (.object .single), .register (.object .single 0),
       .context .main 0, .space ⟨2, "ram", .memory, none⟩,
       .space ⟨100, "Registers", .register, some "register"⟩]
     let schedule := [0, 1, 0, 1, 2, 0, 1, 3, 2, 1, 0, 4, 3, 2, 0, 1, 4, 1, 0, 3, 4, 1, 0, 2, 3, 4,
       2, 3, 4, 2, 3, 4]
     let race := (start oneRow queries).run schedule
     (∃ new, oneRow.CreatedOnce race.atlas [(0, .unbound "ram")] new) ∧
       Answered oneRow queries race ∧ ∀ i < 5, ∃ r, race.stages[i]? = some (.returned r)) ∧
    (let queries : List Query := [.frame (.object .single), .register (.object .single 0)]
     let schedule := [0, 1, 0, 1, 0, 1, 1, 0, 0, 1, 1, 0]
     let race := (start onDisk queries).run schedule
     (∃ new, @Atlas.CreatedOnce _ _ (FileOnDisk.lawful "/traces" "MemorySpaces") onDisk race.atlas []
        new) ∧
       Answered onDisk queries race ∧ ∀ i < 2, ∃ r, race.stages[i]? = some (.returned r)) := by
  constructor
  · intro queries schedule race
    obtain ⟨hcreated, hanswered, hreturned⟩ := run_createdOnce favorable_oneRow tidy_oneRow queries
      schedule (by decide +kernel) (by decide +kernel) (granted_memory _ _) (by decide +kernel)
    refine ⟨hcreated, hanswered, fun i hi => hreturned i hi ?_⟩
    revert i
    decide
  · intro queries schedule race
    let := FileOnDisk.lawful "/traces" "MemorySpaces"
    obtain ⟨hcreated, hanswered, hreturned⟩ := run_createdOnce favorable_onDisk tidy_onDisk queries
      schedule (by decide +kernel) (by decide +kernel) (by decide +kernel) (by decide +kernel)
    refine ⟨hcreated, hanswered, fun i hi => hreturned i hi ?_⟩
    revert i
    decide

end Race
end TraceAtlas
