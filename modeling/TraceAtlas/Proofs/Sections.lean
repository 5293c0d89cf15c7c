import TraceAtlas.Proofs.Peek

/-!
# Creating lookups, section by section

A lookup that may create does not hold the registry from its question to its answer. It is let in
or turned away, then one section gets or makes what a slot holds; a lookup through an object asks
first what was found before, searches the tree, has the slot of the container filled, and keeps the
answer, each in a section of its own; table errors are reported at the end. A section is what a
lookup does under one lock, so sections follow one another even where lookups overlap. `Stage` says
how far a lookup has come and `Atlas.advance` runs the section that is next.

In a `Race` any number of lookups take turns, one section at a time and in any order. A lookup that
is alone in its race does what `Atlas.ask` does (`Race.run_single`), and whoever gets six turns has
returned (`Race.run_returned`).
-/

namespace TraceAtlas

/-- Where a lookup goes when it was let in. -/
inductive Way where
  | space (space : AddressSpace)
  | bank (context : ExecutionContext) (frame : UInt32)
  | object (object : ObjectRef) (frame : UInt32)
deriving DecidableEq, Repr

def RegisterKey.way : RegisterKey → Way
  | .frame c level => .bank c level
  | .object o level => .object o level

theorem RegisterKey.way_ne_space (key : RegisterKey) (space : AddressSpace) :
    key.way ≠ .space space := by
  cases key <;> simp [way]

/-- How far a creating lookup has come. -/
inductive Stage where
  | asked (q : Query)
  | admitted (way : Way)
  /-- Nothing was found before through the object. -/
  | missed (object : ObjectRef) (frame : UInt32)
  | contained (object : ObjectRef) (frame : UInt32) (container : ObjectRef)
  /-- The slot of the container is filled, which is yet to be kept for the object. -/
  | found (object : ObjectRef) (frame : UInt32) (x : SubSpace)
  | settled (answer : Except SpaceError (Option SubSpace))
  | returned (answer : Except SpaceError (Option SubSpace))
deriving DecidableEq

/-- No more sections than this are left. -/
def Stage.left : Stage → Nat
  | asked _ => 6
  | admitted _ => 5
  | missed _ _ => 4
  | contained _ _ _ => 3
  | found _ _ _ => 2
  | settled _ => 1
  | returned _ => 0

namespace Atlas

variable {σ : Type}

/-! ## Sections -/

def enterSpace (a : Atlas σ) (space : AddressSpace) : Stage × Atlas σ :=
  match a.check space with
  | (.error e, a) => (.returned (.error e), a)
  | (.ok (), a) => (.admitted (.space space), a)

def enterRegister (a : Atlas σ) (key : RegisterKey) : Stage × Atlas σ :=
  if !a.settings.contexts then
    (.returned (.ok none), a.note [.registersDisabled a.settings.name key])
  else (.admitted key.way, a)

def enterContext (a : Atlas σ) (context : ExecutionContext) (frame : UInt32) : Stage × Atlas σ :=
  if !a.settings.contexts then
    (.returned (.ok none), a.note [.noContexts context.key a.settings.name])
  else if !ContextDirectory.owns a.trace.contexts context then
    (.returned (.error (.notMine context.key)), a)
  else
    match a.registerKey context frame with
    | .error e => (.returned (.error e), a)
    | .ok key => a.enterRegister key

/-- Lets a lookup in, or turns it away. -/
def enter (a : Atlas σ) : Query → Stage × Atlas σ
  | .request ⟨space, none, _⟩ => a.enterSpace space
  | .request ⟨_, some context, frame⟩ => a.enterContext context frame
  | .space space => a.enterSpace space
  | .context context frame => a.enterContext context frame
  | .frame (.object object) => a.enterRegister (.object object 0)
  | .frame (.level context level) => a.enterContext context level
  | .register key => a.enterRegister key

variable [EntryTable σ]

/-- The next section of a creating lookup. -/
def advance (a : Atlas σ) : Stage → Stage × Atlas σ
  | .asked q => a.enter q
  | .admitted (.space space) =>
    let (r, a) := a.memoryOrCreate space
    (.settled r, a)
  | .admitted (.bank context frame) =>
    let (r, a) := a.bankOrCreate context frame
    (.settled r, a)
  | .admitted (.object object frame) =>
    match a.objectHit object frame with
    | some x => (.settled (.ok (some x)), a)
    | none => (.missed object frame, a)
  | .missed object frame =>
    match a.container object frame with
    | (none, a) => (.settled (.ok none), a)
    | (some container, a) => (.contained object frame container, a)
  | .contained object frame container =>
    match a.filledForContainer container with
    | (.error e, a) => (.settled (.error e), a)
    | (.ok none, a) => (.settled (.ok none), a)
    | (.ok (some x), a) => (.found object frame x, a)
  | .found object frame x => (.settled (.ok (some x)), a.remember object frame x)
  | .settled r => (.returned r, a.report)
  | .returned r => (.returned r, a)

end Atlas

/-! ## Races -/

/-- Creating lookups on one atlas, each as far as it has come. -/
structure Race (σ : Type) where
  atlas : Atlas σ
  stages : List Stage

namespace Race

variable {σ : Type} [EntryTable σ]

def start (a : Atlas σ) (queries : List Query) : Race σ := ⟨a, queries.map .asked⟩

/-- The `i`-th lookup runs its next section. -/
def turn (race : Race σ) (i : Nat) : Race σ :=
  match race.stages[i]? with
  | none => race
  | some stage =>
    let (stage, a) := race.atlas.advance stage
    ⟨a, race.stages.set i stage⟩

/-- The lookups take their turns as the schedule says. -/
def run (race : Race σ) (schedule : List Nat) : Race σ := schedule.foldl turn race

/-! ### Everybody returns -/

end Race

theorem Atlas.left_advance {σ : Type} [EntryTable σ] (a : Atlas σ) (stage : Stage) :
    (a.advance stage).1.left ≤ stage.left - 1 := by
  have hspace : ∀ space, (a.enterSpace space).1.left ≤ 5 := by
    intro space
    unfold enterSpace
    generalize a.check space = answer
    obtain ⟨_ | _, b⟩ := answer <;> simp [Stage.left]
  have hregister : ∀ key, (a.enterRegister key).1.left ≤ 5 := by
    intro key
    unfold enterRegister
    split <;> simp [Stage.left]
  have hcontext : ∀ context frame, (a.enterContext context frame).1.left ≤ 5 := by
    intro context frame
    unfold enterContext
    split
    · simp [Stage.left]
    · split
      · simp [Stage.left]
      · split
        · simp [Stage.left]
        · exact hregister _
  cases stage with
  | asked q =>
      show (a.enter q).1.left ≤ 5
      unfold enter
      split
      · exact hspace _
      · exact hcontext _ _
      · exact hspace _
      · exact hcontext _ _
      · exact hregister _
      · exact hcontext _ _
      · exact hregister _
  | admitted way =>
      cases way with
      | space space => simp [advance, Stage.left]
      | bank context frame => simp [advance, Stage.left]
      | object object frame =>
          simp only [advance]
          split <;> simp [Stage.left]
  | missed object frame =>
      simp only [advance]
      split <;> simp [Stage.left]
  | contained object frame container =>
      simp only [advance]
      split <;> simp [Stage.left]
  | found object frame x => simp [advance, Stage.left]
  | settled r => simp [advance, Stage.left]
  | returned r => simp [advance, Stage.left]

namespace Race

variable {σ : Type} [EntryTable σ]

theorem stages_turn (race : Race σ) (i j : Nat) : (race.turn i).stages[j]? =
    if i = j then race.stages[j]?.map fun stage => (race.atlas.advance stage).1
    else race.stages[j]? := by
  unfold turn
  cases hi : race.stages[i]? with
  | none =>
      by_cases hij : i = j
      · rw [if_pos hij, ← hij, hi, Option.map_none]
      · rw [if_neg hij]
  | some stage =>
      have hlt : i < race.stages.length := (List.getElem?_eq_some_iff.mp hi).1
      by_cases hij : i = j
      · rw [if_pos hij, ← hij, hi, Option.map_some]
        exact List.getElem?_set_self hlt
      · rw [if_neg hij]
        exact List.getElem?_set_ne hij

/-- Each turn brings a lookup nearer to its end, whatever the others do. -/
theorem left_run {race : Race σ} (schedule : List Nat) {i : Nat} {stage : Stage}
    (h : race.stages[i]? = some stage) :
    ∃ stage', (race.run schedule).stages[i]? = some stage' ∧
      stage'.left ≤ stage.left - schedule.count i := by
  unfold run
  induction schedule generalizing race stage with
  | nil => exact ⟨stage, h, by simp⟩
  | cons j schedule ih =>
      have hturn := stages_turn race j i
      by_cases hj : j = i
      · rw [if_pos hj, h, Option.map_some] at hturn
        obtain ⟨stage', hstage', hleft⟩ := ih hturn
        have hadvance := race.atlas.left_advance stage
        refine ⟨stage', hstage', ?_⟩
        rw [hj, List.count_cons_self]
        omega
      · rw [if_neg hj, h] at hturn
        obtain ⟨stage', hstage', hleft⟩ := ih hturn
        refine ⟨stage', hstage', ?_⟩
        rw [List.count_cons_of_ne hj]
        exact hleft

/-- **A lookup that gets six turns has returned,** whatever the others do in between. -/
theorem run_returned (a : Atlas σ) (queries : List Query) {schedule : List Nat} {i : Nat}
    (hi : i < queries.length) (turns : 6 ≤ schedule.count i) :
    ∃ r, ((start a queries).run schedule).stages[i]? = some (.returned r) := by
  have hstart : (start a queries).stages[i]? = some (.asked queries[i]) := by
    simp [start, hi]
  obtain ⟨stage, hstage, hleft⟩ := left_run schedule hstart
  have hzero : stage.left = 0 := by
    change stage.left ≤ 6 - schedule.count i at hleft
    omega
  cases stage with
  | returned r => exact ⟨r, hstage⟩
  | _ => cases hzero

/-! ### A lookup that is alone -/

/-- A lookup by itself at some stage, and `n` turns for it. -/
def alone (a : Atlas σ) (stage : Stage) (n : Nat) : Race σ :=
  run ⟨a, [stage]⟩ (List.replicate n 0)

theorem alone_succ (a : Atlas σ) (stage : Stage) (n : Nat) :
    alone a stage (n + 1) = alone (a.advance stage).2 (a.advance stage).1 n := rfl

theorem alone_returned (a : Atlas σ) (r : Except SpaceError (Option SubSpace)) (n : Nat) :
    alone a (.returned r) n = ⟨a, [.returned r]⟩ := by
  induction n with
  | zero => rfl
  | succ n ih => exact ih

theorem alone_settled (a : Atlas σ) (r : Except SpaceError (Option SubSpace)) (n : Nat) :
    alone a (.settled r) (n + 1) = ⟨a.report, [.returned r]⟩ := alone_returned _ _ n

theorem alone_object (a : Atlas σ) (object : ObjectRef) (frame : UInt32) :
    alone a (.admitted (.object object frame)) 5 =
      ⟨(a.throughObject object frame true).2.report,
        [.returned (a.throughObject object frame true).1]⟩ := by
  rw [alone_succ]
  unfold Atlas.throughObject
  simp only [Atlas.advance]
  cases a.objectHit object frame with
  | some x => exact alone_settled _ _ 3
  | none =>
      dsimp only
      rw [alone_succ]
      simp only [Atlas.advance]
      generalize a.container object frame = answer
      obtain ⟨_ | container, b⟩ := answer
      · exact alone_settled _ _ 2
      · dsimp only
        rw [alone_succ]
        simp only [Atlas.advance, Atlas.containerSpace, if_true]
        generalize b.filledForContainer container = answer
        obtain ⟨_ | _ | x, c⟩ := answer
        · exact alone_settled _ _ 1
        · exact alone_settled _ _ 1
        · exact alone_settled _ _ 0

theorem alone_enterSpace (a : Atlas σ) (space : AddressSpace) :
    alone (a.enterSpace space).2 (a.enterSpace space).1 5 =
      ⟨(a.lookupSpace space true).2, [.returned (a.lookupSpace space true).1]⟩ := by
  unfold Atlas.enterSpace Atlas.lookupSpace
  generalize a.check space = answer
  obtain ⟨_ | _, b⟩ := answer
  · exact alone_returned _ _ 5
  · exact alone_settled _ _ 3

theorem alone_enterRegister (a : Atlas σ) (key : RegisterKey) :
    alone (a.enterRegister key).2 (a.enterRegister key).1 5 =
      ⟨(a.lookupRegister key true).2, [.returned (a.lookupRegister key true).1]⟩ := by
  unfold Atlas.enterRegister Atlas.lookupRegister
  split
  · exact alone_returned _ _ 5
  · cases key with
    | frame context level => exact alone_settled _ _ 3
    | object object level => exact alone_object a object level

theorem alone_enterContext (a : Atlas σ) (context : ExecutionContext) (frame : UInt32) :
    alone (a.enterContext context frame).2 (a.enterContext context frame).1 5 =
      ⟨(a.lookupContext context frame true).2,
        [.returned (a.lookupContext context frame true).1]⟩ := by
  unfold Atlas.enterContext Atlas.lookupContext
  split
  · exact alone_returned _ _ 5
  · split
    · exact alone_returned _ _ 5
    · cases a.registerKey context frame with
      | error e => exact alone_returned _ _ 5
      | ok key => exact alone_enterRegister a key

/-- **The sections of a lookup that nobody interrupts are the lookup.** -/
theorem run_single (a : Atlas σ) (q : Query) :
    (start a [q]).run (List.replicate 6 0) = ⟨(a.ask q true).2, [.returned (a.ask q true).1]⟩ := by
  have hfirst : (start a [q]).run (List.replicate 6 0) = alone (a.enter q).2 (a.enter q).1 5 :=
    alone_succ a (.asked q) 5
  rw [hfirst]
  unfold Atlas.enter
  cases q with
  | request request =>
      obtain ⟨space, context, frame⟩ := request
      cases context with
      | none => exact alone_enterSpace a space
      | some context => exact alone_enterContext a context frame
  | space space => exact alone_enterSpace a space
  | context context frame => exact alone_enterContext a context frame
  | frame frame =>
      cases frame with
      | object object => exact alone_enterRegister a (.object object 0)
      | level context level => exact alone_enterContext a context level
  | register key => exact alone_enterRegister a key

end Race
end TraceAtlas
