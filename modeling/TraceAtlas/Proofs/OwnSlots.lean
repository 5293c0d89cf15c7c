import TraceAtlas.Proofs.Orderly

/-!
# Sub-spaces sit in the slots they were built for

The factory builds a sub-space for one slot, its `SubSpace.home`. Lookups put it there. A load puts
the sub-space that a row is bound to wherever the row leads, and a row knows its space by name only:
once the directory has another space of that name, the row leads to another slot, and the sub-space
moves with it or, if the old slot was not emptied, sits in both.

That is all that can go wrong. As long as every bound row that is read leads home (`Homing`), be it
because its space is still the same or is gone, `runAmong_inOwnSlots` holds of every state, and
`not_inOwnSlots_replaced` is a space that was replaced. No sub-space is in two slots because none
but a new one gets a serial number that is not known yet.
-/

namespace TraceAtlas

/-- The slot that a sub-space was built for: the bank of its row if it was built with a context,
else the slot of its space. -/
def SubSpace.home (x : SubSpace) : SlotKey :=
  match x.context with
  | none => .memory x.space
  | some _ => .register ⟨x.slot.entry.context, x.slot.entry.frame⟩

namespace Caches

/-- The sub-space is in a slot or bound to a row. -/
inductive Knows (c : Caches) (x : SubSpace) : Prop
  | held {p : SlotKey} (held : c.at? p = some x)
  | bound {key : RowKey} {entry : Entry} (bound : c.binding? key entry = some x)

variable {c : Caches} {b : Bound} {p : SlotKey} {x : SubSpace} {key : RowKey} {entry : Entry}

theorem binding?_put (c : Caches) (b : Bound) (p : SlotKey) (key : RowKey) (entry : Entry) :
    (c.put b p).binding? key entry =
      if key = b.key then if b.entry = entry then some b.space else none
      else c.binding? key entry := by
  unfold binding?
  rw [bindings_put, SortedMap.get?_insert]
  by_cases hkey : key = b.key
  · rw [if_pos hkey, if_pos hkey]
  · rw [if_neg hkey, if_neg hkey]

theorem binding?_of_keepBindings {keys : List RowKey}
    (h : (c.keepBindings keys).binding? key entry = some x) : c.binding? key entry = some x := by
  rw [binding?_eq_some_iff, get?_bindings_keepBindings] at h
  split at h
  · exact binding?_eq_some_iff.mpr h
  · cases h

theorem Knows.of_put (h : (c.put b p).Knows x) : x = b.space ∨ c.Knows x := by
  cases h with
  | held held =>
      rw [at?_put] at held
      split at held
      · exact .inl (Option.some.inj held).symm
      · exact .inr (.held held)
  | bound bound =>
      rw [binding?_put] at bound
      split at bound
      · split at bound
        · exact .inl (Option.some.inj bound).symm
        · cases bound
      · exact .inr (.bound bound)

theorem Knows.of_keepBindings {keys : List RowKey} (h : (c.keepBindings keys).Knows x) :
    c.Knows x := by
  cases h with
  | held held => exact .held ((at?_keepBindings c keys _).symm.trans held)
  | bound bound => exact .bound (binding?_of_keepBindings bound)

theorem Knows.of_clearSlots (h : c.clearSlots.Knows x) : c.Knows x := by
  cases h with
  | held held => cases (at?_clearSlots c _).symm.trans held
  | bound bound => exact .bound bound

end Caches

namespace Atlas

variable {σ : Type} {a b : Atlas σ} {p : SlotKey} {x : SubSpace} {key : RowKey} {entry : Entry}

/-! ## What is built is built for its slot -/

theorem home_subSpace {t : Target} (target : a.target? entry = some t) (serial : Nat)
    (key : RowKey) : (a.subSpace serial t key entry).home = t.slot := by
  unfold target? at target
  cases hspace : a.resolve? entry.space with
  | none => simp [hspace] at target
  | some space =>
      simp only [hspace] at target
      split at target
      · split at target
        · split at target
          · cases target
            rfl
          · next contextKey hcontext =>
              obtain ⟨context, -, rfl⟩ := Option.map_eq_some_iff.mp target
              have hkey : entry.context = contextKey := by
                unfold Entry.context? at hcontext
                split at hcontext <;> cases hcontext
                rfl
              rw [← hkey]
              rfl
        · cases target
      · cases target
        rfl

theorem Names.home_subSpace {q : Query} {t : Target} (h : a.Names q t) (serial : Nat)
    (key : RowKey) : (a.subSpace serial t key t.entry).home = t.slot := by
  cases h <;> rfl

/-! ## The invariant -/

/-- Every slot is home to what it holds, and the serial numbers of the sub-spaces that are known are
told apart and taken. -/
structure Housed (a : Atlas σ) : Prop where
  home : ∀ p x, a.caches.at? p = some x → x.home = p
  taken : ∀ x, a.caches.Knows x → x.serial < a.trace.factory.built
  unique : ∀ x y, a.caches.Knows x → a.caches.Knows y → x.serial = y.serial → x = y

theorem housed_empty (h : a.caches = {}) : a.Housed := by
  have hnone : ∀ x, ¬ a.caches.Knows x := by
    rw [h]
    rintro x (@⟨p, held⟩ | bound)
    · cases p <;> cases held
    · cases bound
  refine ⟨?_, fun x hx => absurd hx (hnone x), fun x y hx => absurd hx (hnone x)⟩
  intro p x hx
  exact absurd (.held hx) (hnone x)

/-- Nothing is known that was not known before. -/
theorem Housed.mono (h : a.Housed) (slots : ∀ p x, b.caches.at? p = some x →
    a.caches.at? p = some x) (knows : ∀ x, b.caches.Knows x → a.caches.Knows x)
    (count : a.trace.factory.built ≤ b.trace.factory.built) : b.Housed where
  home p x hx := h.home p x (slots p x hx)
  taken x hx := Nat.lt_of_lt_of_le (h.taken x (knows x hx)) count
  unique x y hx hy := h.unique x y (knows x hx) (knows y hy)

theorem Housed.of_caches (h : a.Housed) (caches : b.caches = a.caches)
    (count : a.trace.factory.built ≤ b.trace.factory.built) : b.Housed := by
  apply h.mono
  · rw [caches]
    exact fun _ _ hx => hx
  · rw [caches]
    exact fun _ hx => hx
  · exact count

theorem Housed.of_idle (h : a.Housed) (idle : Idle a b) : b.Housed :=
  h.of_caches idle.caches (Nat.le_of_eq (congrArg Factory.built idle.factory).symm)

/-- A sub-space is put where it belongs: a known one, or one with the next serial number. -/
theorem Housed.put (h : a.Housed) {bound : Bound} (caches : b.caches = a.caches.put bound p)
    (home : bound.space.home = p) (count : a.trace.factory.built ≤ b.trace.factory.built)
    (origin : a.caches.Knows bound.space ∨ bound.space.serial = a.trace.factory.built ∧
      a.trace.factory.built < b.trace.factory.built) : b.Housed := by
  have hknown : ∀ x, b.caches.Knows x → x = bound.space ∨ a.caches.Knows x := by
    rw [caches]
    exact fun x hx => hx.of_put
  -- nothing that is known has the serial number of what is put, unless it is that
  have hother : ∀ x, a.caches.Knows x → x.serial = bound.space.serial → x = bound.space := by
    intro x hx hserial
    rcases origin with known | ⟨hnext, -⟩
    · exact h.unique x _ hx known hserial
    · have hlt := h.taken x hx
      omega
  refine ⟨?_, ?_, ?_⟩
  · intro q x hx
    rw [caches, Caches.at?_put] at hx
    split at hx
    · next hq =>
        cases hx
        rw [hq]
        exact home
    · exact h.home q x hx
  · intro x hx
    rcases hknown x hx with rfl | hx
    · rcases origin with known | ⟨hnext, hlt⟩
      · exact Nat.lt_of_lt_of_le (h.taken _ known) count
      · omega
    · exact Nat.lt_of_lt_of_le (h.taken x hx) count
  · intro x y hx hy hserial
    rcases hknown x hx with rfl | hx
    · rcases hknown y hy with rfl | hy
      · rfl
      · exact (hother y hy hserial.symm).symm
    · rcases hknown y hy with rfl | hy
      · exact hother x hx hserial
      · exact h.unique x y hx hy hserial

/-! ## What the invariant comes to -/

/-- What is in a slot was built for that slot, and is in no other. -/
structure InOwnSlots (a : Atlas σ) : Prop where
  memory : ∀ space x, a.caches.at? (.memory space) = some x → x.space = space ∧ x.context = none
  register : ∀ bank x, a.caches.at? (.register bank) = some x → x.context.isSome = true ∧
    x.slot.entry.context = bank.context ∧ x.slot.entry.frame = bank.frame
  once : ∀ p q x y, a.caches.at? p = some x → a.caches.at? q = some y → x.serial = y.serial → p = q

theorem SubSpace.home_eq_memory {space : AddressSpace} (h : x.home = .memory space) :
    x.space = space ∧ x.context = none := by
  unfold SubSpace.home at h
  split at h
  · next hcontext => exact ⟨SlotKey.memory.inj h, hcontext⟩
  · cases h

theorem SubSpace.home_eq_register {bank : Bank} (h : x.home = .register bank) :
    x.context.isSome = true ∧ x.slot.entry.context = bank.context ∧
      x.slot.entry.frame = bank.frame := by
  unfold SubSpace.home at h
  split at h
  · cases h
  · next hcontext =>
      rw [hcontext, ← SlotKey.register.inj h]
      exact ⟨rfl, rfl, rfl⟩

theorem Housed.inOwnSlots (h : a.Housed) : a.InOwnSlots where
  memory _ x hx := SubSpace.home_eq_memory (h.home _ x hx)
  register _ x hx := SubSpace.home_eq_register (h.home _ x hx)
  once p q x y hx hy hserial := by
    obtain rfl := h.unique x y (.held hx) (.held hy) hserial
    rw [← h.home p x hx, ← h.home q x hy]

/-! ## Loading -/

/-- If the row is bound, it leads to the slot that its sub-space was built for, or to none. -/
def LeadsHome (a : Atlas σ) (row : Row) : Prop :=
  ∀ x ∈ a.caches.binding? row.1 row.2, ∀ t ∈ a.target? row.2, t.slot = x.home

instance (a : Atlas σ) : DecidablePred a.LeadsHome :=
  fun row => inferInstanceAs (Decidable (∀ x ∈ a.caches.binding? row.1 row.2, _))

/-- Loading a row that leads home leaves every slot home to what it holds, and leads no other row
astray. -/
theorem RowLoaded.housed {r : Except SpaceError Bool} (h : RowLoaded a key entry r b)
    (ha : a.Housed) (led : a.LeadsHome (key, entry)) :
    b.Housed ∧ ∀ row, a.LeadsHome row → b.LeadsHome row := by
  have htarget := h.kept.target?_eq
  rcases h.placed with ⟨caches, count⟩ | ⟨t, x, target, caches, hx⟩
  · refine ⟨ha.of_caches caches (Nat.le_of_eq count.symm), ?_⟩
    intro row hrow
    unfold LeadsHome
    rw [caches, htarget]
    exact hrow
  · have home : x.home = t.slot := by
      rcases hx with ⟨bound, -⟩ | ⟨rfl, -⟩
      · exact (led x bound t target).symm
      · exact home_subSpace target _ key
    constructor
    · rcases hx with ⟨bound, count⟩ | ⟨rfl, count⟩
      · exact ha.put caches home (Nat.le_of_eq count.symm) (.inl (.bound bound))
      · exact ha.put caches home (by omega) (.inr ⟨rfl, by omega⟩)
    · intro row hrow y hy u hu
      rw [htarget] at hu
      rw [caches, Caches.binding?_put] at hy
      split at hy
      · split at hy
        · next hentry =>
            -- the row that was just loaded
            cases hy
            rw [← hentry, target] at hu
            cases hu
            exact home.symm
        · cases hy
      · exact hrow y hy u hu

variable [EntryTable σ]

theorem Housed.loadTable (h : a.Housed)
    (led : ∀ rows, (EntryTable.rows a.table).1 = .ok rows → ∀ row ∈ rows, a.LeadsHome row) :
    a.loadTable.2.Housed := by
  have hload : a.loadTable.2.Housed ∧ ∀ rows, (EntryTable.rows a.table).1 = .ok rows →
      ∀ row ∈ rows, a.loadTable.2.LeadsHome row := by
    refine loadTable_preserves (P := fun b => b.Housed ∧ ∀ rows,
      (EntryTable.rows a.table).1 = .ok rows → ∀ row ∈ rows, b.LeadsHome row) ?_ ?_ ?_ ?_ ⟨h, led⟩
    · intro b c hidle hb
      refine ⟨hb.1.of_idle hidle, ?_⟩
      intro rows hrows row hrow
      unfold LeadsHome
      rw [hidle.caches, hidle.target?_eq]
      exact hb.2 rows hrows row hrow
    · intro b table hb
      exact ⟨hb.1.of_caches rfl (Nat.le_refl _), hb.2⟩
    · intro rows hrows b c key entry r hmem hrow hb
      obtain ⟨hhoused, hled⟩ := hrow.housed hb.1 (hb.2 rows hrows _ hmem)
      exact ⟨hhoused, fun rows' hrows' row hrow' => hled row (hb.2 rows' hrows' row hrow')⟩
    · intro b keys hb
      refine ⟨hb.1.mono ?_ (fun x hx => hx.of_keepBindings) (Nat.le_refl _), ?_⟩
      · intro p x hx
        exact (Caches.at?_keepBindings _ keys p).symm.trans hx
      · intro rows hrows row hrow x hx
        exact hb.2 rows hrows row hrow x (Caches.binding?_of_keepBindings hx)
  exact hload.1

/-! ## Events -/

/-- Every row that is read at the event leads home, and others build sub-spaces of their own. -/
def Homing (a : Atlas σ) : Event σ → Prop
  | .call c => ∀ rows ∈ a.readBy? c, ∀ row ∈ rows, a.LeadsHome row
  | .others _ trace => a.trace.factory.built ≤ trace.factory.built

instance (a : Atlas σ) : DecidablePred a.Homing
  | .call c => inferInstanceAs (Decidable (∀ rows ∈ a.readBy? c, _))
  | .others _ trace => inferInstanceAs (Decidable (a.trace.factory.built ≤ trace.factory.built))

theorem stable_housed (q : Query) (create : Bool) : Stable q create (Housed (σ := σ)) where
  idle hidle ha := ha.of_idle hidle
  mint _ hminted ha := ha.of_caches hminted.idle.caches
    (Nat.le_of_eq (congrArg Factory.built hminted.idle.factory).symm)
  fill _ names hfilled ha := by
    rcases hfilled.placed with ⟨caches, count⟩ | ⟨key, caches, count⟩
    · exact ha.of_caches caches (Nat.le_of_eq count.symm)
    · exact ha.put caches (names.home_subSpace _ key) (by omega) (.inr ⟨rfl, by omega⟩)
  remember _ _ _ ha := ha.of_caches rfl (Nat.le_refl _)

theorem Housed.step {e : Event σ} (h : a.Housed) (homing : a.Homing e) : (a.step e).Housed := by
  cases e with
  | others table trace => exact h.of_caches rfl homing
  | call c =>
      refine perform_preserves (P := Housed) ?_ stable_housed ?_ ?_ ?_ ?_ homing h
      · exact fun hidle hb => hb.of_idle hidle
      · exact fun hb led => hb.loadTable led
      · intro ha
        refine ha.mono ?_ (fun x hx => hx.of_clearSlots) (Nat.le_refl _)
        intro p x hx
        cases (Caches.at?_clearSlots a.caches p).symm.trans hx
      · intro row led x hx t ht
        rw [(sameWorld_clear a).target?_eq] at ht
        exact led x hx t ht
      · exact fun hb => hb.of_caches rfl (Nat.le_refl _)

/-! ## Reachable states -/

/-- **In every state that calls and others can lead to, what is in a slot was built for that slot
and is in no other,** provided that the rows that are read lead home if they are bound. -/
theorem runAmong_inOwnSlots {settings : Settings} {table : σ} {trace : Trace}
    {events : List (Event σ)}
    (homing : (unloaded settings table trace).Throughout Homing (opening settings ++ events)) :
    ((start settings table trace).2.runAmong events).InOwnSlots := by
  rw [runAmong_start]
  refine Housed.inOwnSlots ?_
  exact homing.preserves (P := Housed) (fun hok ha => ha.step hok) (housed_empty rfl)

end Atlas

/-- The surroundings after one sub-space was built, with another directory. -/
def Trace.redirected (directory : Directory) : Trace :=
  { Trace.single with directory, factory := { built := 1 } }

namespace Atlas

/-- The table that a registry leaves which has created something for `ram`. -/
def ramTable : MemoryTable where
  name := "MemorySpaces"
  stored := ⟨[(0, .unbound "ram")]⟩
  nextKey := 1

/-- The space is taken out of the directory before another of its name comes in, and a reload in
between gives up the sub-space. -/
theorem runAmong_inOwnSlots_removed :
    let ram : AddressSpace := ⟨9, "ram", .memory, none⟩
    ((start { name := "Memory" } ({ name := "MemorySpaces" } : MemoryTable) .single).2.runAmong [
      .call (.ask (.space ⟨2, "ram", .memory, none⟩) true), .call .load,
      .others ramTable (.redirected (Directory.standard.remove "ram")), .call .invalidate,
      .others ramTable (.redirected ((Directory.standard.remove "ram").add ram)), .call .load,
      .call (.ask (.space ram) true), .call (.ask (.context .main 0) true),
      .call .invalidate]).InOwnSlots := by
  intro ram
  exact runAmong_inOwnSlots (by decide +kernel)

/-- The space is replaced, and the load puts the sub-space in the slot of the new one as well. -/
theorem not_inOwnSlots_replaced :
    ¬ ((start { name := "Memory" } ({ name := "MemorySpaces" } : MemoryTable) .single).2.runAmong [
      .call (.ask (.space ⟨2, "ram", .memory, none⟩) true),
      .others ramTable (.redirected (Directory.standard.add ⟨9, "ram", .memory, none⟩)),
      .call .load]).InOwnSlots := by
  intro h
  let x : SubSpace := ⟨0, ⟨2, "ram", .memory, none⟩, none, ⟨0, .unbound "ram", "Memory_ram"⟩⟩
  have honce := h.once (.memory ⟨2, "ram", .memory, none⟩) (.memory ⟨9, "ram", .memory, none⟩) x x
    (by decide +kernel) (by decide +kernel) rfl
  revert honce
  decide

end Atlas
end TraceAtlas
