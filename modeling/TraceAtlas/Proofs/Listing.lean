import TraceAtlas.Proofs.Admission
import TraceAtlas.Proofs.LookupEffects
import TraceAtlas.Proofs.ReloadRaces

/-!
# The order of listings

A registry lists the sub-spaces in memory slots in the order of their spaces, which
`AddressSpace.Before` spells out, and those in register slots behind them. Creating, loading and
reloading all write to the slots through an insertion that keeps them sorted, so the listing is in
order at every moment, even while lookups overlap (`runThrough_listsInOrder`). How the slots came to
be filled leaves no trace in it: a strictly increasing list is determined by its members, so
registries that have filled the same memory slots list them alike.
-/

namespace TraceAtlas

/-! ## The order of spaces -/

theorem SpaceKind.rank_eq_ctorIdx (k : SpaceKind) : k.rank = k.ctorIdx := by
  cases k <;> rfl

namespace AddressSpace

/-- `s` is listed before `t`: the number decides, then the name, then which kind is declared first,
and last the base, where a space without one comes first. -/
inductive Before (s t : AddressSpace) : Prop
  | id (lt : s.id < t.id)
  | name (id : s.id = t.id) (lt : s.name < t.name)
  | kind (id : s.id = t.id) (name : s.name = t.name) (lt : s.kind.ctorIdx < t.kind.ctorIdx)
  | base (id : s.id = t.id) (name : s.name = t.name) (kind : s.kind = t.kind)
      (lt : s.base < t.base)

theorem compare_base_eq_lt {b c : Option String} : compare b c = .lt ↔ b < c := by
  cases b with
  | none => cases c <;> simp [compare]
  | some s =>
      cases c with
      | none => simp [compare]
      | some t =>
          rw [Option.some_lt_some]
          exact compareOfLessAndEq_eq_lt

theorem compare_eq_lt {s t : AddressSpace} : compare s t = .lt ↔ s.Before t := by
  have hname : compare s.name t.name = .lt ↔ s.name < t.name := compareOfLessAndEq_eq_lt
  have hkind : compare s.kind.rank t.kind.rank = .lt ↔ s.kind.ctorIdx < t.kind.ctorIdx := by
    rw [Nat.compare_eq_lt, SpaceKind.rank_eq_ctorIdx, SpaceKind.rank_eq_ctorIdx]
  have htie : compare s.kind.rank t.kind.rank = .eq ↔ s.kind = t.kind := by
    rw [Std.compare_eq_iff_eq]
    exact ⟨fun h => SpaceKind.rank_injective h, congrArg SpaceKind.rank⟩
  show (compare s.id t.id).then _ = .lt ↔ _
  simp only [Ordering.then_eq_lt, Std.compare_eq_lt, hname, hkind, compare_base_eq_lt, htie,
    Std.compare_eq_iff_eq]
  constructor
  · rintro (lt | ⟨id, lt | ⟨name, lt | ⟨kind, lt⟩⟩⟩)
    · exact .id lt
    · exact .name id lt
    · exact .kind id name lt
    · exact .base id name kind lt
  · rintro (lt | ⟨id, lt⟩ | ⟨id, name, lt⟩ | ⟨id, name, kind, lt⟩)
    · exact .inl lt
    · exact .inr ⟨id, .inl lt⟩
    · exact .inr ⟨id, .inr ⟨name, .inl lt⟩⟩
    · exact .inr ⟨id, .inr ⟨name, .inr ⟨kind, lt⟩⟩⟩

end AddressSpace

/-! ## Listings of sorted slots -/

namespace Caches

/-- The spaces whose memory slots are filled, as they are listed. -/
def memorySlots (c : Caches) : List AddressSpace := c.memory.keys

/-- The same memory slots are filled, with whatever sub-spaces. -/
def FillsSame (c d : Caches) : Prop :=
  ∀ space, (c.at? (.memory space)).isSome = (d.at? (.memory space)).isSome

/-- What is in memory slots is listed slot by slot, in strictly increasing order of the spaces, and
behind it what is in register slots, each slot once. -/
structure ListsInOrder (c : Caches) : Prop where
  increasing : c.memorySlots.Pairwise AddressSpace.Before
  filled : ∀ space, space ∈ c.memorySlots ↔ (c.at? (.memory space)).isSome = true
  memory : c.memorySpaces.map some = c.memorySlots.map fun space => c.at? (.memory space)
  /-- Nothing is said of the order of banks. -/
  all : ∃ banks : List Bank, banks.Nodup ∧
    (∀ bank, bank ∈ banks ↔ (c.at? (.register bank)).isSome = true) ∧
      c.spaces.map some = c.memorySpaces.map some ++ banks.map fun bank => c.at? (.register bank)

theorem Sorted.listsInOrder {c : Caches} (h : c.Sorted) : c.ListsInOrder where
  increasing := h.memory.pairwise_keys.imp AddressSpace.compare_eq_lt.mp
  filled _ := SortedMap.mem_keys_iff
  memory := h.memory.map_some_values
  all := by
    refine ⟨c.registers.keys, h.registers.nodup_keys, fun _ => SortedMap.mem_keys_iff, ?_⟩
    unfold spaces
    rw [List.map_append]
    exact congrArg _ h.registers.map_some_values

theorem Sorted.memorySlots_eq {c d : Caches} (hc : c.Sorted) (hd : d.Sorted)
    (same : c.FillsSame d) : c.memorySlots = d.memorySlots := hc.memory.keys_eq hd.memory same

end Caches

/-! ## Slots stay sorted -/

namespace Atlas

variable {σ : Type} {a b : Atlas σ}

theorem RowLoaded.sorted {key : RowKey} {entry : Entry} {r : Except SpaceError Bool}
    (h : RowLoaded a key entry r b) (ha : a.caches.Sorted) : b.caches.Sorted := by
  rcases h.placed with ⟨caches, -⟩ | ⟨t, x, -, caches, -⟩
  · rw [caches]
    exact ha
  · rw [caches]
    exact ha.put _ _

variable [EntryTable σ]

theorem Filled.sorted {t : Target} {r : Except SpaceError (Option SubSpace)}
    (h : Filled a t r b) (ha : a.caches.Sorted) : b.caches.Sorted := by
  rcases h.placed with ⟨caches, -⟩ | ⟨key, caches, -⟩
  · rw [caches]
    exact ha
  · rw [caches]
    exact ha.put _ _

theorem stable_sorted (q : Query) (create : Bool) :
    Stable q create fun a : Atlas σ => a.caches.Sorted where
  idle hidle ha := by rw [hidle.caches]; exact ha
  mint _ hminted ha := by rw [hminted.idle.caches]; exact ha
  fill _ _ hfilled ha := hfilled.sorted ha
  remember _ _ _ ha := ha

theorem loadTable_sorted (h : a.caches.Sorted) : a.loadTable.2.caches.Sorted := by
  refine loadTable_preserves (P := fun a => a.caches.Sorted) ?_ ?_ ?_ ?_ h
  · intro a b hidle ha
    rw [hidle.caches]
    exact ha
  · intro a table ha
    exact ha
  · intro rows _ a b key entry r _ hrow ha
    exact hrow.sorted ha
  · intro a keys ha
    exact ha.keepBindings keys

theorem step_sorted (e : Event σ) (h : a.caches.Sorted) : (a.step e).caches.Sorted := by
  cases e with
  | others table trace => exact h -- others never reach the caches
  | call c =>
      cases c with
      | ask q create => exact (stable_sorted q create).ask h
      | load =>
          show a.loadTable.2.report.caches.Sorted
          rw [(idle_report _).caches]
          exact loadTable_sorted h
      | invalidate =>
          show a.invalidate.2.caches.Sorted
          rw [invalidate_caches]
          exact loadTable_sorted (Caches.sorted_clearSlots _)

/-! ### While lookups overlap -/

theorem filledForContainer_sorted (container : ObjectRef) (h : a.caches.Sorted) :
    (a.filledForContainer container).2.caches.Sorted := by
  have hoverlay := (untouched_overlay a container.path.text).caches
  unfold filledForContainer
  revert hoverlay
  generalize a.overlay container.path.text = answer
  obtain ⟨r, b⟩ := answer
  intro hoverlay
  have hb : b.caches.Sorted := hoverlay ▸ h
  rcases r with e | _ | space
  · exact hb
  · exact hb
  · have hcheck := (idle_check b space).caches
    dsimp only
    revert hcheck
    generalize b.check space = answer
    obtain ⟨r, c⟩ := answer
    intro hcheck
    have hc : c.caches.Sorted := hcheck ▸ hb
    cases r with
    | error e => exact hc
    | ok u => exact (fillSlot_spec c (.ofSpace space)).sorted hc

theorem proceed_sorted (create : Bool) (stage : Stage) (h : a.caches.Sorted) :
    (a.proceed create stage).2.caches.Sorted := by
  cases stage with
  | asked q =>
      show (a.enter q).2.caches.Sorted
      rw [(enter_underway (.refl a) q).1.caches]
      exact h
  | admitted way =>
      cases way with
      | space space => exact (fillSlot_spec a (.ofSpace space)).sorted h
      | bank context frame => exact (fillSlot_spec a (.ofBank _ context frame)).sorted h
      | object object frame =>
          simp only [proceed, advance]
          split <;> exact h
  | missed object frame =>
      have hidle := idle_container a object frame
      simp only [proceed, advance]
      revert hidle
      generalize a.container object frame = answer
      obtain ⟨_ | container, b⟩ := answer <;> intro hidle <;> exact hidle.caches ▸ h
  | contained object frame container =>
      have hspace : (a.containerSpace container create).2.caches.Sorted := by
        cases create with
        | false =>
            show (a.heldByContainer container).2.caches.Sorted
            rw [(idle_heldByContainer a container).caches]
            exact h
        | true => exact filledForContainer_sorted container h
      simp only [proceed]
      revert hspace
      generalize a.containerSpace container create = answer
      obtain ⟨_ | _ | x, b⟩ := answer <;> exact id
  | found object frame x => exact h
  | settled r =>
      show a.report.caches.Sorted
      rw [(idle_report a).caches]
      exact h
  | returned r => exact h

end Atlas

/-! ## Runs in which lookups overlap -/

/-- What happens to a registry from one moment to the next: an event, or a lookup that has come to
`stage` runs its next section. Nothing is asked of how it came there. -/
inductive Happening (σ : Type) where
  | event (event : Event σ)
  | turn (create : Bool) (stage : Stage)

namespace Atlas

variable {σ τ : Type} [EntryTable σ] [EntryTable τ] {a : Atlas σ}

def happen (a : Atlas σ) : Happening σ → Atlas σ
  | .event e => a.step e
  | .turn create stage => (a.proceed create stage).2

def runThrough (a : Atlas σ) (happenings : List (Happening σ)) : Atlas σ :=
  happenings.foldl happen a

/-- What comes of turns, each of which is such a run, is such a run. -/
theorem exists_runThrough_foldl {ρ κ : Type} (atlas : ρ → Atlas σ) {turn : ρ → κ → ρ}
    (each : ∀ race t, ∃ happenings, atlas (turn race t) = (atlas race).runThrough happenings)
    (race : ρ) (turns : List κ) :
    ∃ happenings, atlas (turns.foldl turn race) = (atlas race).runThrough happenings := by
  induction turns generalizing race with
  | nil => exact ⟨[], rfl⟩
  | cons t turns ih =>
      obtain ⟨first, hfirst⟩ := each race t
      obtain ⟨rest, hrest⟩ := ih (turn race t)
      refine ⟨first ++ rest, ?_⟩
      unfold runThrough at hfirst hrest ⊢
      rw [List.foldl_cons, hrest, hfirst, List.foldl_append]

/-- Lookups that race for slots are such a run. -/
theorem exists_runThrough_race (race : Race σ) (schedule : List Nat) :
    ∃ happenings, (race.run schedule).atlas = race.atlas.runThrough happenings := by
  refine exists_runThrough_foldl Race.atlas ?_ race schedule
  intro race i
  unfold Race.turn
  split
  · exact ⟨[], rfl⟩
  · next stage _ =>
      refine ⟨[.turn true stage], ?_⟩
      show _ = (race.atlas.proceed true stage).2
      rw [proceed_true]

/-- So are lookups through objects among reloads and removals of rows. -/
theorem exists_runThrough_objectRace (race : ObjectRace) (turns : List ObjectRace.Turn) :
    ∃ happenings, (race.run turns).atlas = race.atlas.runThrough happenings := by
  refine exists_runThrough_foldl ObjectRace.atlas ?_ race turns
  intro race t
  cases t with
  | lookup i =>
      unfold ObjectRace.turn
      dsimp only
      split
      · exact ⟨[], rfl⟩
      · next create stage _ => exact ⟨[.turn create stage], rfl⟩
  | reload => exact ⟨[.event (.call .invalidate)], rfl⟩
  | remove key =>
      exact ⟨[.event (.others (race.atlas.table.remove key).2 race.atlas.trace)], rfl⟩

theorem runThrough_sorted (happenings : List (Happening σ)) (h : a.caches.Sorted) :
    (a.runThrough happenings).caches.Sorted := by
  unfold runThrough
  induction happenings generalizing a with
  | nil => exact h
  | cons happening happenings ih =>
      cases happening with
      | event e => exact ih (step_sorted e h)
      | turn create stage => exact ih (proceed_sorted create stage h)

theorem start_sorted (settings : Settings) (table : σ) (trace : Trace) :
    (start settings table trace).2.caches.Sorted := by
  unfold start
  dsimp only
  split
  · exact step_sorted (a := unloaded settings table trace) (.call .load) Caches.sorted_empty
  · exact Caches.sorted_empty

/-- **At every moment the slots are listed in order,** and registries that have filled the same
memory slots list them alike, whatever has happened to each. -/
theorem runThrough_listsInOrder (settings : Settings) (table : σ) (trace : Trace)
    (happenings : List (Happening σ)) :
    let a := (start settings table trace).2.runThrough happenings
    a.caches.ListsInOrder ∧
      ∀ (settings' : Settings) (table' : τ) (trace' : Trace) (happenings' : List (Happening τ)),
        let b := (start settings' table' trace').2.runThrough happenings'
        a.caches.FillsSame b.caches → a.caches.memorySlots = b.caches.memorySlots := by
  intro a
  have ha : a.caches.Sorted := runThrough_sorted happenings (start_sorted settings table trace)
  refine ⟨ha.listsInOrder, ?_⟩
  intro settings' table' trace' happenings' b same
  have hb : b.caches.Sorted := runThrough_sorted happenings' (start_sorted settings' table' trace')
  exact ha.memorySlots_eq hb same

/-- Lookups fill the slots of four spaces, two of which tie in all but the base, and one lookup is
overtaken on its way through an object; loads fill the same slots in the opposite order. -/
theorem runThrough_listsInOrder_reversed :
    let ram : AddressSpace := ⟨2, "ram", .memory, none⟩
    let shadow : AddressSpace := ⟨2, "ram", .memory, some "rom"⟩
    let overlay : AddressSpace := ⟨100, "Registers", .register, some "register"⟩
    let created := (start { name := "Memory" } (rowsOfOthers []) .single).2.runThrough [
      .event (.call (.ask (.space ram) true)),
      .event (.others (rowsOfOthers [.unbound "ram"])
        { Trace.single with directory := Directory.standard.add shadow }),
      .turn true (.admitted (.object .single 0)), .turn true (.asked (.space shadow)),
      .turn true (.missed .single 0), .turn true (.admitted (.space shadow)),
      .turn true (.contained .single 0 .single),
      .event (.call (.ask (.space .noAddress) true))]
    let filed := Directory.standard.add overlay
    let loaded := (start { name := "Other" }
        (rowsOfOthers [.unbound noAddressName, .unbound "Registers"])
        { Trace.single with directory := filed }).2.runThrough [
      .event (.others (rowsOfOthers [.unbound "ram"])
        { Trace.single with directory := filed.add shadow }),
      .event (.call .load),
      .event (.others (rowsOfOthers [.unbound "ghost", .unbound "ram"])
        { Trace.single with directory := filed }),
      .event (.call .load)]
    created.caches.memorySlots = [ram, shadow, overlay, .noAddress] ∧
      created.caches.FillsSame loaded.caches ∧
        created.caches.memorySlots = loaded.caches.memorySlots := by
  intro ram shadow overlay created filed loaded
  have hcreated : created.caches.memorySlots = [ram, shadow, overlay, .noAddress] := by
    decide +kernel
  have hloaded : loaded.caches.memorySlots = [ram, shadow, overlay, .noAddress] := by
    decide +kernel
  have hsame : created.caches.FillsSame loaded.caches := by
    intro space
    rw [Bool.eq_iff_iff]
    show (created.caches.memory.get? space).isSome = true ↔
      (loaded.caches.memory.get? space).isSome = true
    rw [← SortedMap.mem_keys_iff, ← SortedMap.mem_keys_iff]
    show space ∈ created.caches.memorySlots ↔ space ∈ loaded.caches.memorySlots
    rw [hcreated, hloaded]
  exact ⟨hcreated, hsame, (runThrough_listsInOrder { name := "Memory" } (rowsOfOthers []) .single
    _).2 { name := "Other" } _ _ _ hsame⟩

end Atlas
end TraceAtlas
