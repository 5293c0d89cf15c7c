import TraceAtlas.Proofs.Peek

/-!
# Which spaces have filled slots

A lookup has the directory check a space before it touches the space's slot. A load has nothing
checked: it fills the slot of whatever space the name in a row resolves to. As long as no load reads
a row that resolves to a space which the check would refuse (`Admitting`), the slots that are filled
are those that lookups reach, `runAmong_lookupsReach`; a single row of another writer for a space of
constants is enough to fill a slot that no lookup reaches, `not_lookupsReach_constant`.
-/

namespace TraceAtlas

namespace Directory

instance (d : Directory) : DecidablePred d.Admits :=
  fun space => inferInstanceAs (Decidable (d.vouchesFor space = true ∧ space.isKeepable = true))

/-- `e` files the spaces of `d` and refuses the same names. -/
structure SameSpaces (d e : Directory) : Prop where
  spaces : e.spaces = d.spaces
  refused : e.refused = d.refused

instance (d e : Directory) : Decidable (d.SameSpaces e) :=
  decidable_of_iff (e.spaces = d.spaces ∧ e.refused = d.refused)
    ⟨fun h => ⟨h.1, h.2⟩, fun h => ⟨h.spaces, h.refused⟩⟩

theorem SameSpaces.extends {d e : Directory} (h : d.SameSpaces e) : d.Extends e where
  find? name space hfind := by
    unfold find? at hfind ⊢
    rw [h.spaces]
    exact hfind
  refused := h.refused

end Directory

/-- A memory slot that lookups may use. Register slots are not looked up by space. -/
def SlotKey.Admitted (d : Directory) : SlotKey → Prop
  | .memory space => d.Admits space
  | .register _ => True

instance (d : Directory) : DecidablePred (SlotKey.Admitted d)
  | .memory space => inferInstanceAs (Decidable (d.Admits space))
  | .register _ => isTrue trivial

theorem SlotKey.Admitted.of_extends {d e : Directory} {p : SlotKey} (h : p.Admitted d)
    (grown : d.Extends e) : p.Admitted e := by
  cases p with
  | memory space => exact grown.admits h
  | register bank => trivial

namespace Atlas

variable {σ : Type} {a b : Atlas σ} {p : SlotKey}

/-! ## The invariant -/

/-- Slots are listed in order, and those that are filled are admitted. -/
structure AdmittedOnly (a : Atlas σ) : Prop where
  sorted : a.caches.Sorted
  admitted : ∀ p x, a.caches.at? p = some x → p.Admitted a.trace.directory

theorem AdmittedOnly.of_caches (h : a.AdmittedOnly)
    (grown : a.trace.directory.Extends b.trace.directory) (caches : b.caches = a.caches) :
    b.AdmittedOnly := by
  constructor
  · rw [caches]
    exact h.sorted
  · intro p x hx
    rw [caches] at hx
    exact (h.admitted p x hx).of_extends grown

theorem AdmittedOnly.of_idle (h : a.AdmittedOnly) (idle : Idle a b) : b.AdmittedOnly :=
  h.of_caches idle.extends_directory idle.caches

theorem AdmittedOnly.put (h : a.AdmittedOnly) {bound : Bound}
    (grown : a.trace.directory.Extends b.trace.directory)
    (caches : b.caches = a.caches.put bound p) (admitted : p.Admitted a.trace.directory) :
    b.AdmittedOnly := by
  constructor
  · rw [caches]
    exact h.sorted.put bound p
  · intro q x hx
    rw [caches, Caches.at?_put] at hx
    split at hx
    · next hq =>
        rw [hq]
        exact admitted.of_extends grown
    · exact (h.admitted q x hx).of_extends grown

/-- If the row leads to a slot, lookups may use it. -/
def LeadsToAdmitted (a : Atlas σ) (row : Row) : Prop :=
  ∀ t ∈ a.target? row.2, t.slot.Admitted a.trace.directory

instance (a : Atlas σ) : DecidablePred a.LeadsToAdmitted :=
  fun row => inferInstanceAs (Decidable (∀ t ∈ a.target? row.2, _))

theorem SameWorld.leadsToAdmitted (h : SameWorld a b) {row : Row} (led : a.LeadsToAdmitted row) :
    b.LeadsToAdmitted row := by
  intro t ht
  rw [h.target?_eq] at ht
  exact (led t ht).of_extends h.extends_directory

theorem RowLoaded.admittedOnly {key : RowKey} {entry : Entry} {r : Except SpaceError Bool}
    (h : RowLoaded a key entry r b) (ha : a.AdmittedOnly) (led : a.LeadsToAdmitted (key, entry)) :
    b.AdmittedOnly := by
  have hgrown := h.kept.extends_directory
  rcases h.placed with ⟨caches, -⟩ | ⟨t, x, target, caches, -⟩
  · exact ha.of_caches hgrown caches
  · exact ha.put hgrown caches (led t target)

/-- A lookup fills no slots but those of spaces that it has checked. -/
theorem Names.admitted {q : Query} {t : Target} (h : a.Names q t) :
    t.slot.Admitted a.trace.directory := by
  cases h with
  | space named admitted => exact admitted
  | container found admitted => exact admitted
  | bank contexts owned => trivial

variable [EntryTable σ]

theorem stable_admittedOnly (q : Query) (create : Bool) :
    Stable q create (AdmittedOnly (σ := σ)) where
  idle hidle ha := ha.of_idle hidle
  mint _ hminted ha := ha.of_caches hminted.extends_directory hminted.idle.caches
  fill _ names hfilled ha := by
    have hgrown := hfilled.sameWorld.extends_directory
    rcases hfilled.placed with ⟨caches, -⟩ | ⟨key, caches, -⟩
    · exact ha.of_caches hgrown caches
    · exact ha.put hgrown caches names.admitted
  remember _ _ _ ha := ha.of_caches (.refl _) rfl

/-! ## Events -/

/-- No row that is read at the event leads to a slot that lookups refuse to use, and others leave
the spaces as they are. -/
def Admitting (a : Atlas σ) : Event σ → Prop
  | .call c => ∀ rows ∈ a.readBy? c, ∀ row ∈ rows, a.LeadsToAdmitted row
  | .others _ trace => a.trace.directory.SameSpaces trace.directory

instance (a : Atlas σ) : DecidablePred a.Admitting
  | .call c => inferInstanceAs (Decidable (∀ rows ∈ a.readBy? c, _))
  | .others _ trace => inferInstanceAs (Decidable (a.trace.directory.SameSpaces trace.directory))

theorem AdmittedOnly.loadTable (h : a.AdmittedOnly)
    (led : ∀ rows, (EntryTable.rows a.table).1 = .ok rows → ∀ row ∈ rows, a.LeadsToAdmitted row) :
    a.loadTable.2.AdmittedOnly := by
  refine loadTable_preserves_within (P := AdmittedOnly) ?_ ?_ ?_ ?_ h
  · intro b c hidle hb
    exact hb.of_idle hidle
  · intro b table hb
    exact ⟨hb.sorted, hb.admitted⟩
  · intro rows hrows b c key entry r hmem hworld hrow hb
    exact hrow.admittedOnly hb (hworld.leadsToAdmitted (led rows hrows _ hmem))
  · intro b keys hb
    refine ⟨hb.sorted.keepBindings keys, ?_⟩
    intro p x hx
    exact hb.admitted p x ((Caches.at?_keepBindings _ keys p).symm.trans hx)

theorem AdmittedOnly.step {e : Event σ} (h : a.AdmittedOnly) (admitting : a.Admitting e) :
    (a.step e).AdmittedOnly := by
  cases e with
  | others table trace => exact h.of_caches admitting.extends rfl
  | call c =>
      refine perform_preserves (P := AdmittedOnly) ?_ stable_admittedOnly ?_ ?_ ?_ ?_ admitting h
      · exact fun hidle hb => hb.of_idle hidle
      · exact fun hb led => hb.loadTable led
      · rintro -
        refine ⟨Caches.sorted_clearSlots _, ?_⟩
        intro p x hx
        cases (Caches.at?_clearSlots a.caches p).symm.trans hx
      · exact fun row led => (sameWorld_clear a).leadsToAdmitted led
      · exact fun hb => ⟨hb.sorted, hb.admitted⟩

/-! ## Reachable states -/

/-- Every memory slot that is filled is that of an admitted space, which is answered with the
sub-space in the slot, so that every sub-space that is listed can be looked up. -/
structure LookupsReach (a : Atlas σ) : Prop where
  admitted : ∀ space x, a.caches.at? (.memory space) = some x → a.trace.directory.Admits space
  answered : ∀ space x, a.caches.at? (.memory space) = some x →
    (a.lookupSpace space false).1 = .ok (some x)
  reached : ∀ x ∈ a.caches.memorySpaces, ∃ space, (a.lookupSpace space false).1 = .ok (some x)

theorem AdmittedOnly.lookupsReach (h : a.AdmittedOnly) : a.LookupsReach := by
  have hadmitted : ∀ space x, a.caches.at? (.memory space) = some x →
      a.trace.directory.Admits space := fun space x hx => h.admitted (.memory space) x hx
  refine ⟨hadmitted, fun space x hx => lookupSpace_of_admits (hadmitted space x hx) hx, ?_⟩
  intro x hx
  obtain ⟨space, hspace⟩ := h.sorted.memory.mem_values_iff.mp hx
  exact ⟨space, lookupSpace_of_admits (hadmitted space x hspace) hspace⟩

/-- **In every state that calls and other writers can lead to, lookups reach what is in memory
slots,** provided that the rows that are read lead to no other slots. -/
theorem runAmong_lookupsReach {settings : Settings} {table : σ} {trace : Trace}
    {events : List (Event σ)}
    (admitting : (unloaded settings table trace).Throughout Admitting (opening settings ++ events)) :
    ((start settings table trace).2.runAmong events).LookupsReach := by
  rw [runAmong_start]
  refine AdmittedOnly.lookupsReach ?_
  refine admitting.preserves (P := AdmittedOnly) (fun hok ha => ha.step hok) ?_
  refine ⟨Caches.sorted_empty, ?_⟩
  intro p x hx
  cases p <;> cases hx

/-- A table with rows of several writers. -/
def rowsOfOthers (entries : List Entry) : MemoryTable :=
  entries.foldl (fun t entry => (t.create entry).2) { name := "MemorySpaces" }

theorem runAmong_lookupsReach_others :
    ((start { name := "Memory" } (rowsOfOthers [.unbound "ram", .unbound "register"])
      .single).2.runAmong [
        .call (.ask (.space ⟨2, "ram", .memory, none⟩) true),
        .others (rowsOfOthers [.unbound "ghost", .unbound noAddressName, ⟨"register", 5, 2⟩,
          ⟨"register", 9, 0⟩]) .single,
        .call .load, .call (.ask (.context .main 0) true), .call .invalidate,
        .call (.ask (.register (.object .single 0)) true), .call .load]).LookupsReach :=
  runAmong_lookupsReach (by decide +kernel)

/-- A row of another writer has a load fill the slot of a space of constants. -/
theorem not_lookupsReach_constant :
    ¬ ((start { name := "Memory" } (rowsOfOthers []) .single).2.runAmong
      [.others (rowsOfOthers [.unbound "const"]) .single, .call .load]).LookupsReach := by
  intro h
  have hadmits := h.admitted ⟨0, "const", .constant, none⟩
    ⟨0, ⟨0, "const", .constant, none⟩, none, ⟨0, .unbound "const", "Memory_const"⟩⟩
    (by decide +kernel)
  revert hadmits
  decide +kernel

end Atlas
end TraceAtlas
