import TraceAtlas.Proofs.Rooted

/-!
# Runs next to other writers

Between the calls to a registry other writers may create rows in its table. `Grounded` is what such
a run preserves, whatever fails in it: the table shows rows, and sub-spaces are `Rooted` in them.
-/

namespace TraceAtlas.Atlas

variable {σ : Type} [EntryTable σ] [SharedTable σ] {a b : Atlas σ} {rows : List Row}

/-! ## Moves -/

/-- What happens to a registry that shares its table: a call, or another writer creates a row. -/
inductive Move where
  | call (call : Call)
  | write (entry : Entry)
deriving DecidableEq, Repr

def moved (a : Atlas σ) : Move → Atlas σ
  | .call c => a.perform c
  | .write entry => { a with table := SharedTable.write entry a.table }

def runShared (a : Atlas σ) (moves : List Move) : Atlas σ := moves.foldl moved a

theorem runShared_preserves {P : Atlas σ → Prop} {moves : List Move}
    (move : ∀ {a m}, m ∈ moves → P a → P (a.moved m)) (ha : P a) : P (a.runShared moves) := by
  unfold runShared
  induction moves generalizing a with
  | nil => exact ha
  | cons m moves ih =>
      have hm : P (a.moved m) := move List.mem_cons_self ha
      exact ih (fun hmem => move (List.mem_cons_of_mem m hmem)) hm

/-! ## The invariant -/

/-- The surroundings have the register space, and sub-spaces are with their rows. -/
structure Grounded (a : Atlas σ) : Prop where
  registers : HasRegisters a.settings a.trace.directory
  truthful : a.caches.Truthful
  rooted : ∃ rows, SharedTable.Shows a.table rows ∧ a.Rooted rows

theorem Grounded.of_world (ha : a.Grounded) (h : SameWorld a b) (truthful : b.caches.Truthful)
    (shows : SharedTable.Shows b.table rows) (rooted : b.Rooted rows) : b.Grounded := by
  refine ⟨?_, truthful, rows, shows, rooted⟩
  rw [h.settings]
  exact ha.registers.of_extends h.extends_directory

theorem Grounded.of_idle (ha : a.Grounded) (h : Idle a b) : b.Grounded := by
  obtain ⟨rows, shows, rooted⟩ := ha.rooted
  rw [← h.table] at shows
  refine ha.of_world h.toSameWorld ?_ shows (rooted.of_world h.toSameWorld h.caches)
  rw [h.caches]
  exact ha.truthful

theorem Grounded.of_minted {name : String} (ha : a.Grounded) (h : Minted a name b) :
    b.Grounded := by
  obtain ⟨rows, shows, rooted⟩ := ha.rooted
  have hsettings : b.settings = a.settings := h.idle.settings
  refine ⟨?_, ?_, rows, ?_, rooted.of_minted h ha.registers.kind⟩
  · rw [hsettings]
    exact ha.registers.of_extends h.extends_directory
  · rw [h.idle.caches]
    exact ha.truthful
  · rw [h.idle.table]
    exact shows

theorem Grounded.of_filled {q : Query} {t : Target} {r : Except SpaceError (Option SubSpace)}
    (ha : a.Grounded) (names : a.Names q t) (h : Filled a t r b) : b.Grounded := by
  obtain ⟨rows, shows, rooted⟩ := ha.rooted
  obtain ⟨more, hmore, hadded⟩ := h.added shows
  have hworld := h.sameWorld
  refine ha.of_world hworld (fill_truthful h ha.truthful) hmore ?_
  cases hadded with
  | nothing caches => exact rooted.of_world hworld caches
  | row fresh caches => exact (rooted.of_world hworld caches).mono (List.subset_append_left _ _)
  | space fresh row caches => exact rooted.put hworld row fresh (names.settled ha.registers) caches

theorem stable_grounded (q : Query) (create : Bool) :
    Stable q create fun a : Atlas σ => a.Grounded where
  idle hidle ha := ha.of_idle hidle
  mint _ hminted ha := ha.of_minted hminted
  fill _ names hfilled ha := ha.of_filled names hfilled
  remember {a object frame _ _ x} _ _ _ ha := by
    obtain ⟨rows, shows, rooted⟩ := ha.rooted
    have hworld : SameWorld a (a.remember object frame x) := ⟨rfl, rfl, rfl, rfl, rfl⟩
    exact ha.of_world hworld ha.truthful shows (rooted.of_world hworld rfl)

theorem Grounded.load (ha : a.Grounded) : a.load.2.Grounded := by
  obtain ⟨rows, shows, rooted⟩ := ha.rooted
  obtain ⟨hfetched, hshows⟩ := fetched_loadTable (.refl a) rfl rfl shows
  have hrooted := rooted.of_fetched ha.truthful hfetched (fun _ _ hx => hx) (fun _ hrow => hrow)
    (SharedTable.keys shows)
  have hloaded :=
    ha.of_world (sameWorld_loadTable a) (loadTable_truthful ha.truthful) hshows hrooted
  exact hloaded.of_idle (idle_report a.loadTable.2)

theorem Grounded.invalidate (ha : a.Grounded) : a.invalidate.2.Grounded := by
  obtain ⟨rows, shows, rooted⟩ := ha.rooted
  obtain ⟨more, hmore, hrows⟩ := SharedTable.invalidate_shows shows
  obtain ⟨hfetched, hshows⟩ := fetched_loadTable (sameWorld_clear a) rfl rfl hmore
  have hempty : ∀ p x, a.clear.caches.at? p = some x → a.caches.at? p = some x := by
    intro p x hx
    rw [show a.clear.caches.at? p = none from Caches.at?_clearSlots _ p] at hx
    cases hx
  have hrooted := rooted.of_fetched ha.truthful hfetched hempty hrows (SharedTable.keys hmore)
  have hworld := (sameWorld_clear a).trans (sameWorld_loadTable a.clear)
  apply invalidate_preserves (P := Grounded)
  · intro b c hidle hb
    exact hb.of_idle hidle
  · intro b hb
    obtain ⟨rows, shows, rooted⟩ := hb.rooted
    have hforget := sameWorld_forgetAll b
    exact hb.of_world hforget hb.truthful shows (rooted.of_world hforget rfl)
  · exact ha.of_world hworld (loadTable_truthful (a := a.clear) ha.truthful) hshows hrooted

theorem Grounded.perform (ha : a.Grounded) (c : Call) : (a.perform c).Grounded := by
  cases c with
  | ask q create => exact (stable_grounded q create).ask ha
  | load => exact ha.load
  | invalidate => exact ha.invalidate

theorem Grounded.moved (ha : a.Grounded) (m : Move) : (a.moved m).Grounded := by
  cases m with
  | call c => exact ha.perform c
  | write entry =>
      obtain ⟨rows, shows, rooted⟩ := ha.rooted
      obtain ⟨more, hmore, hrows⟩ := SharedTable.write_shows entry shows
      have hworld : SameWorld a (a.moved (.write entry)) := ⟨rfl, rfl, rfl, rfl, rfl⟩
      exact ha.of_world hworld ha.truthful hmore ((rooted.mono hrows).of_world hworld rfl)

theorem Grounded.runShared (ha : a.Grounded) (moves : List Move) :
    (a.runShared moves).Grounded := runShared_preserves (fun _ hb => hb.moved _) ha

theorem grounded_new {settings : Settings} {table : σ} {trace : Trace}
    (registers : HasRegisters settings trace.directory) (shows : SharedTable.Shows table rows) :
    Grounded ⟨⟨settings, {}, .empty, []⟩, table, trace⟩ := by
  refine ⟨registers, Caches.truthful_empty, rows, shows, rooted_empty ?_ rows⟩
  intro p
  cases p <;> rfl

/-- **A registry is grounded from the start,** whatever rows the table has. -/
theorem grounded_start {settings : Settings} {table : σ} {trace : Trace}
    (registers : HasRegisters settings trace.directory) (shows : SharedTable.Shows table rows) :
    (Atlas.start settings table trace).2.Grounded := by
  have hnew := grounded_new registers shows
  unfold Atlas.start
  dsimp only
  split
  · exact hnew.load
  · exact hnew

end TraceAtlas.Atlas
