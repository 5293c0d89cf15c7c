import TraceAtlas.Proofs.Run

/-!
# Sub-spaces serve the rows they were built for

A sub-space is reused for a row if the row's key is bound to it under the row's entry. Nobody
compares the key and the entry that the sub-space itself carries, so reuse is right only as long
as bindings are `Truthful`: what is bound to a key under an entry was built for that key and that
entry. They stay so whatever others do to the table between two calls, and whether a load ends
well or not; the slots are as true as the bindings, since a slot is filled together with one.
-/

namespace TraceAtlas

/-! ## Truthful bindings -/

namespace Caches

/-- Every row is bound, under the entry it then had, to a sub-space that was built for it. -/
def Truthful (c : Caches) : Prop :=
  ∀ key b, c.bindings.get? key = some b → b.space.row = (key, b.entry)

theorem truthful_empty : Truthful {} := by
  intro key b h
  cases h

variable {c : Caches}

theorem Truthful.put (h : c.Truthful) {b : Bound} (hb : b.space.row = (b.key, b.entry))
    (p : SlotKey) : (c.put b p).Truthful := by
  intro key binding hget
  rw [bindings_put, SortedMap.get?_insert] at hget
  split at hget
  · next hkey =>
      cases hget
      rw [hkey]
      exact hb
  · exact h key binding hget

theorem Truthful.keepBindings (h : c.Truthful) (keys : List RowKey) :
    (c.keepBindings keys).Truthful := by
  intro key binding hget
  rw [get?_bindings_keepBindings] at hget
  split at hget
  · exact h key binding hget
  · cases hget

theorem Truthful.row_eq (h : c.Truthful) {key : RowKey} {entry : Entry} {x : SubSpace}
    (hbound : c.binding? key entry = some x) : x.row = (key, entry) :=
  h key ⟨entry, x⟩ (binding?_eq_some_iff.mp hbound)

end Caches

namespace Atlas

variable {σ : Type} {a b : Atlas σ}

/-- What loading a row puts in a slot was built for that row, now or when the row was bound. -/
theorem RowLoaded.put_row {key : RowKey} {entry : Entry} {r : Except SpaceError Bool}
    (h : RowLoaded a key entry r b) (ha : a.caches.Truthful) : b.caches = a.caches ∨
      ∃ x p, x.row = (key, entry) ∧ b.caches = a.caches.put ⟨key, entry, x⟩ p := by
  rcases h.placed with ⟨caches, -⟩ | ⟨t, x, -, caches, ⟨bound, -⟩ | ⟨rfl, -⟩⟩
  · exact .inl caches
  · exact .inr ⟨x, t.slot, ha.row_eq bound, caches⟩
  · exact .inr ⟨_, t.slot, row_subSpace .., caches⟩

theorem RowLoaded.truthful {key : RowKey} {entry : Entry} {r : Except SpaceError Bool}
    (h : RowLoaded a key entry r b) (ha : a.caches.Truthful) : b.caches.Truthful := by
  rcases h.put_row ha with caches | ⟨x, p, hx, caches⟩
  · rw [caches]
    exact ha
  · rw [caches]
    exact ha.put hx p

/-- The slots hold no sub-spaces but those built for one of `rows`. -/
def SlotsServe (a : Atlas σ) (rows : List Row) : Prop := ∀ x ∈ a.caches.spaces, x.row ∈ rows

theorem RowLoaded.slotsServe {key : RowKey} {entry : Entry} {r : Except SpaceError Bool}
    {rows : List Row} (h : RowLoaded a key entry r b) (ha : a.caches.Truthful)
    (hrow : (key, entry) ∈ rows) (hrows : a.SlotsServe rows) : b.SlotsServe rows := by
  unfold SlotsServe at hrows ⊢
  rcases h.put_row ha with caches | ⟨x, p, hx, caches⟩
  · rw [caches]
    exact hrows
  · rw [caches]
    intro y hy
    rcases Caches.mem_spaces_put hy with rfl | hy
    · rw [hx]
      exact hrow
    · exact hrows y hy

variable [EntryTable σ]

theorem loadTable_truthful (h : a.caches.Truthful) : a.loadTable.2.caches.Truthful := by
  refine loadTable_preserves (P := fun a => a.caches.Truthful) ?_ ?_ ?_ ?_ h
  · intro a b hidle ha
    rw [hidle.caches]
    exact ha
  · intro a table ha
    exact ha
  · intro rows _ a b key entry r _ hrow ha
    exact hrow.truthful ha
  · intro a keys ha
    exact ha.keepBindings keys

theorem fill_truthful {t : Target} {r : Except SpaceError (Option SubSpace)} (h : Filled a t r b)
    (ha : a.caches.Truthful) : b.caches.Truthful := by
  rcases h.placed with ⟨caches, -⟩ | ⟨key, caches, -⟩
  · rw [caches]
    exact ha
  · rw [caches]
    exact ha.put (row_subSpace ..) _

theorem stable_truthful (q : Query) (create : Bool) :
    Stable q create fun a : Atlas σ => a.caches.Truthful where
  idle hidle ha := by rw [hidle.caches]; exact ha
  mint _ hminted ha := by rw [hminted.idle.caches]; exact ha
  fill _ _ hfilled ha := fill_truthful hfilled ha
  remember _ _ _ ha := ha

theorem perform_truthful (c : Call) (h : a.caches.Truthful) : (a.perform c).caches.Truthful := by
  cases c with
  | ask q create => exact (stable_truthful q create).ask h
  | load =>
      show a.loadTable.2.report.caches.Truthful
      rw [(idle_report _).caches]
      exact loadTable_truthful h
  | invalidate =>
      show a.invalidate.2.caches.Truthful
      rw [invalidate_caches]
      exact loadTable_truthful (a := a.clear) h

/-! ## Reachable states -/

/-- The sub-spaces that are bound serve the rows they are bound to, and after a reload, even one
that was refused, those in slots serve rows that were read. -/
structure ServesOwnRows (a : Atlas σ) : Prop where
  bound : ∀ key entry x, a.caches.bindings.get? key = some ⟨entry, x⟩ →
    x.slot.key = key ∧ x.slot.entry = entry
  reloaded : ∀ rows, (EntryTable.rows (EntryTable.invalidate a.table)).1 = .ok rows →
    ∀ x ∈ a.invalidate.2.caches.spaces, ∃ row ∈ rows, x.slot.key = row.1 ∧ x.slot.entry = row.2

/-- A reload leaves only sub-spaces of rows that it read in the slots. -/
theorem invalidate_slotsServe (h : a.caches.Truthful) {rows : List Row}
    (read : (EntryTable.rows (EntryTable.invalidate a.table)).1 = .ok rows) :
    a.invalidate.2.SlotsServe rows := by
  have hload : a.clear.loadTable.2.caches.Truthful ∧ a.clear.loadTable.2.SlotsServe rows := by
    refine loadTable_preserves (P := fun a => a.caches.Truthful ∧ a.SlotsServe rows) ?_ ?_ ?_ ?_
      ⟨h, by simp [SlotsServe, clear, caches, Caches.spaces, Caches.memorySpaces,
        Caches.registerSpaces, Caches.clearSlots]⟩
    · intro a b hidle ha
      unfold SlotsServe
      rw [hidle.caches]
      exact ha
    · intro a table ha
      exact ha
    · intro rows' hrows' a b key entry r hmem hrow ha
      have hsame : rows' = rows := Except.ok.inj (hrows'.symm.trans read)
      subst hsame
      exact ⟨hrow.truthful ha.1, hrow.slotsServe ha.1 hmem ha.2⟩
    · intro a keys ha
      exact ⟨ha.1.keepBindings keys, ha.2⟩
  unfold SlotsServe
  rw [invalidate_caches]
  exact hload.2

/-- **In every run, and whatever others do to the table, sub-spaces serve their own rows only.** -/
theorem runAmong_servesOwnRows (settings : Settings) (table : σ) (trace : Trace)
    (events : List (Event σ)) : ((start settings table trace).2.runAmong events).ServesOwnRows := by
  have hstart : (start settings table trace).2.caches.Truthful := by
    unfold start
    dsimp only
    split
    · exact perform_truthful (a := ⟨⟨settings, {}, .empty, []⟩, table, trace⟩) .load
        Caches.truthful_empty
    · exact Caches.truthful_empty
  have hend : ((start settings table trace).2.runAmong events).caches.Truthful := by
    refine runAmong_preserves (P := fun a => a.caches.Truthful) ?_ hstart
    intro a e _ ha
    cases e with
    | call call => exact perform_truthful call ha
    | others table trace => exact ha -- others never reach the caches
  refine ⟨?_, ?_⟩
  · intro key entry x hget
    exact Prod.mk.inj (hend key ⟨entry, x⟩ hget)
  · intro rows hread x hx
    exact ⟨x.row, invalidate_slotsServe hend hread x hx, rfl, rfl⟩

end Atlas
end TraceAtlas
