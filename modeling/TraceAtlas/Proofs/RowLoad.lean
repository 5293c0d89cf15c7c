import TraceAtlas.Atlas.Reload
import TraceAtlas.Proofs.Caches
import TraceAtlas.Proofs.World

/-!
# Loading one row

Where a row belongs is settled by its entry alone: `Atlas.target?` names the space and the context
it would be built with and the slot it would fill, or nothing if there is no such slot.
`RowLoaded` then lists the five ways in which loading a row can go, and `loadRow_spec` says that
there are no others. Everything about whole loads is proved from these two, by induction on the
rows.
-/

namespace TraceAtlas

/-! ## The factory -/

namespace Factory

/-- The failure that is planned for the request after `n` others. -/
def fault? (f : Factory) (n : Nat) : Option Fault := f.plan[n]?.join

def Reliable (f : Factory) : Prop := ∀ n, f.fault? n = none

theorem build_of_fault? {f : Factory} {fault : Fault} (h : f.fault? 0 = some fault)
    (space : AddressSpace) (context : Option ExecutionContext) (slot : Slot) :
    f.build space context slot =
      (.error (fault.error slot.table), { f with plan := f.plan.tail }) := by
  obtain ⟨built, tables, forgotten, plan⟩ := f
  cases plan with
  | nil => simp [fault?] at h
  | cons step plan =>
      simp only [fault?, List.getElem?_cons_zero, Option.join_some] at h
      subst h
      rfl

theorem build_of_fault?_eq_none {f : Factory} (h : f.fault? 0 = none)
    (space : AddressSpace) (context : Option ExecutionContext) (slot : Slot) :
    f.build space context slot = (.ok ⟨f.built, space, context.map (·.key), slot⟩,
      { f with
        built := f.built + 1
        tables := f.tables ++ [slot.table]
        plan := f.plan.tail }) := by
  obtain ⟨built, tables, forgotten, plan⟩ := f
  cases plan with
  | nil => rfl
  | cons step plan =>
      simp only [fault?, List.getElem?_cons_zero, Option.join_some] at h
      subst h
      rfl

end Factory

/-- Where a row belongs: the slot, and what its sub-space is built with. -/
structure Target where
  space : AddressSpace
  context : Option ExecutionContext
  slot : SlotKey
deriving DecidableEq, Repr

namespace Atlas

variable {σ : Type}

/-! ## Where a row belongs -/

/-- The space that a name stands for: the sentinel under its reserved name, else the directory's. -/
def resolve? (a : Atlas σ) (name : String) : Option AddressSpace :=
  if name = noAddressName then some .noAddress else a.trace.directory.find? name

/-- Where a row with this entry belongs. A register space with a context is a register bank of that
context, which must be known; any other space is a memory slot. Without contexts no register space
has a slot. -/
def target? (a : Atlas σ) (entry : Entry) : Option Target :=
  match a.resolve? entry.space with
  | none => none
  | some space =>
    if space.isRegister then
      if a.settings.contexts then
        match entry.context? with
        | none => some ⟨space, none, .memory space⟩
        | some key =>
          (a.context? key).map fun context =>
            ⟨space, some context, .register ⟨key, entry.frame⟩⟩
      else none
    else some ⟨space, none, .memory space⟩

/-- The sub-space of a row for its target, as the factory builds it under a serial number. -/
def subSpace (a : Atlas σ) (serial : Nat) (t : Target) (key : RowKey) (entry : Entry) : SubSpace :=
  ⟨serial, t.space, t.context.map (·.key), a.slotOf t.space key entry⟩

@[simp] theorem row_subSpace (a : Atlas σ) (serial : Nat) (t : Target) (key : RowKey)
    (entry : Entry) : (a.subSpace serial t key entry).row = (key, entry) := rfl

variable {a b : Atlas σ}

/-- The slot that an entry leads to: that of a bank if the space is of register kind and the entry
has a context, else that of the space. -/
inductive LeadsTo (entry : Entry) (t : Target) : Prop
  | memory (slot : t.slot = .memory t.space)
      (unbound : t.space.isRegister = true → entry.context = Entry.noContext)
  | register (slot : t.slot = .register ⟨entry.context, entry.frame⟩)
      (kind : t.space.isRegister = true) (bank : entry.context ≠ Entry.noContext)

theorem target?_eq_some {entry : Entry} {t : Target} (h : a.target? entry = some t) :
    a.resolve? entry.space = some t.space ∧ LeadsTo entry t := by
  unfold target? at h
  cases hspace : a.resolve? entry.space with
  | none => simp [hspace] at h
  | some space =>
      simp only [hspace] at h
      by_cases hregister : space.isRegister = true
      · rw [if_pos hregister] at h
        by_cases hcontexts : a.settings.contexts = true
        · rw [if_pos hcontexts] at h
          unfold Entry.context? at h
          by_cases hbank : entry.context = Entry.noContext
          · rw [if_pos hbank] at h
            cases h
            exact ⟨rfl, .memory rfl fun _ => hbank⟩
          · rw [if_neg hbank] at h
            obtain ⟨context, -, rfl⟩ := Option.map_eq_some_iff.mp h
            exact ⟨rfl, .register rfl hregister hbank⟩
        · rw [if_neg hcontexts] at h
          cases h
      · rw [if_neg hregister] at h
        cases h
        exact ⟨rfl, .memory rfl fun hkind => absurd hkind hregister⟩

theorem SameWorld.resolve?_eq (h : SameWorld a b) (name : String) :
    b.resolve? name = a.resolve? name := by
  unfold resolve?
  rw [h.find?_eq]

theorem SameWorld.target?_eq (h : SameWorld a b) (entry : Entry) :
    b.target? entry = a.target? entry := by
  unfold target?
  simp only [h.resolve?_eq, h.settings, h.context?_eq]

theorem subSpace_congr (name : b.settings.name = a.settings.name) (serial : Nat) (t : Target)
    (key : RowKey) (entry : Entry) :
    b.subSpace serial t key entry = a.subSpace serial t key entry := by
  unfold subSpace slotOf
  rw [name]

theorem SameWorld.subSpace_eq (h : SameWorld a b) (serial : Nat) (t : Target) (key : RowKey)
    (entry : Entry) : b.subSpace serial t key entry = a.subSpace serial t key entry :=
  subSpace_congr (by rw [h.settings]) serial t key entry

/-! ## The ways in which loading a row can go -/

/-- Loading the row of `key` and `entry` on `a` can answer `r` and leave `b`. -/
inductive RowLoaded (a : Atlas σ) (key : RowKey) (entry : Entry) :
    Except SpaceError Bool → Atlas σ → Prop
  | homeless {b : Atlas σ} (target : a.target? entry = none) (idle : Idle a b) :
      RowLoaded a key entry (.ok false) b
  /-- The sub-space bound to the row is put in its slot. -/
  | reused {b : Atlas σ} {t : Target} {x : SubSpace} (target : a.target? entry = some t)
      (bound : a.caches.binding? key entry = some x) (kept : Kept a b)
      (caches : b.caches = a.caches.put ⟨key, entry, x⟩ t.slot)
      (factory : b.trace.factory = a.trace.factory) :
      RowLoaded a key entry (.ok true) b
  /-- No sub-space is bound to the row, and the factory builds one. -/
  | built {b : Atlas σ} {t : Target} (target : a.target? entry = some t)
      (unbound : a.caches.binding? key entry = none) (planned : a.trace.factory.fault? 0 = none)
      (kept : Kept a b)
      (caches : b.caches =
        a.caches.put ⟨key, entry, a.subSpace a.trace.factory.built t key entry⟩ t.slot)
      (plan : b.trace.factory.plan = a.trace.factory.plan.tail)
      (count : b.trace.factory.built = a.trace.factory.built + 1) :
      RowLoaded a key entry (.ok true) b
  /-- The factory fails, and the caller is not concerned. -/
  | failed {b : Atlas σ} {t : Target} {fault : Fault} (target : a.target? entry = some t)
      (unbound : a.caches.binding? key entry = none)
      (planned : a.trace.factory.fault? 0 = some fault)
      (harmless : (fault.error (a.slotOf t.space key entry).table).isVersion = false)
      (kept : Kept a b) (caches : b.caches = a.caches)
      (plan : b.trace.factory.plan = a.trace.factory.plan.tail)
      (count : b.trace.factory.built = a.trace.factory.built) :
      RowLoaded a key entry (.ok false) b
  /-- The factory finds another version of the schema, which is the caller's. -/
  | refused {b : Atlas σ} {t : Target} {fault : Fault} {e : SpaceError}
      (target : a.target? entry = some t)
      (unbound : a.caches.binding? key entry = none)
      (planned : a.trace.factory.fault? 0 = some fault)
      (version : (fault.error (a.slotOf t.space key entry).table).isVersion = true)
      (kept : Kept a b) (caches : b.caches = a.caches)
      (count : b.trace.factory.built = a.trace.factory.built) :
      RowLoaded a key entry (.error e) b

theorem RowLoaded.kept {key : RowKey} {entry : Entry} {r : Except SpaceError Bool}
    (h : RowLoaded a key entry r b) : Kept a b := by
  cases h with
  | homeless target idle => exact idle.toKept
  | reused target bound kept caches factory => exact kept
  | built target unbound planned kept caches plan count => exact kept
  | failed target unbound planned harmless kept caches plan count => exact kept
  | refused target unbound planned version kept caches count => exact kept

/-- What is in slots and bound stays as it is, or the row's sub-space is put in the slot to which
the row leads: the one that the row is bound to or, as the factory then counts it, a new one. -/
theorem RowLoaded.placed {key : RowKey} {entry : Entry} {r : Except SpaceError Bool}
    (h : RowLoaded a key entry r b) :
    (b.caches = a.caches ∧ b.trace.factory.built = a.trace.factory.built) ∨
      ∃ t x, a.target? entry = some t ∧ b.caches = a.caches.put ⟨key, entry, x⟩ t.slot ∧
        ((a.caches.binding? key entry = some x ∧
            b.trace.factory.built = a.trace.factory.built) ∨
          (x = a.subSpace a.trace.factory.built t key entry ∧
            b.trace.factory.built = a.trace.factory.built + 1)) := by
  cases h with
  | homeless target idle => exact .inl ⟨idle.caches, by rw [idle.factory]⟩
  | reused target bound kept caches factory =>
      exact .inr ⟨_, _, target, caches, .inl ⟨bound, by rw [factory]⟩⟩
  | built target unbound planned kept caches plan count =>
      exact .inr ⟨_, _, target, caches, .inr ⟨rfl, count⟩⟩
  | failed target unbound planned harmless kept caches plan count => exact .inl ⟨caches, count⟩
  | refused target unbound planned version kept caches count => exact .inl ⟨caches, count⟩

/-- A row that starts from an idle change of `a` loads as from `a`. -/
theorem RowLoaded.of_idle {key : RowKey} {entry : Entry} {r : Except SpaceError Bool}
    {c : Atlas σ} (hidle : Idle a b) (h : RowLoaded b key entry r c) :
    RowLoaded a key entry r c := by
  have hworld := hidle.toSameWorld
  cases h with
  | homeless target idle =>
      exact .homeless (hworld.target?_eq entry ▸ target) (hidle.trans idle)
  | reused target bound kept caches factory =>
      rw [hworld.target?_eq] at target
      rw [hidle.caches] at bound caches
      rw [hidle.factory] at factory
      exact .reused target bound (hidle.toKept.trans kept) caches factory
  | built target unbound planned kept caches plan count =>
      rw [hworld.target?_eq] at target
      rw [hidle.caches] at unbound
      rw [hidle.caches, hworld.subSpace_eq, hidle.factory] at caches
      rw [hidle.factory] at planned plan count
      exact .built target unbound planned (hidle.toKept.trans kept) caches plan count
  | failed target unbound planned harmless kept caches plan count =>
      rw [hworld.target?_eq] at target
      rw [hidle.caches] at unbound caches
      rw [hidle.factory] at planned plan count
      refine .failed target unbound planned ?_ (hidle.toKept.trans kept) caches plan count
      simpa only [slotOf, hworld.settings] using harmless
  | refused target unbound planned version kept caches count =>
      rw [hworld.target?_eq] at target
      rw [hidle.caches] at unbound caches
      rw [hidle.factory] at planned count
      refine .refused target unbound planned ?_ (hidle.toKept.trans kept) caches count
      simpa only [slotOf, hworld.settings] using version

theorem rowLoaded_place {t : Target} (key : RowKey) (entry : Entry)
    (target : a.target? entry = some t) {put : Caches → Bound → Caches}
    (hput : ∀ c x, put c x = c.put x t.slot) :
    RowLoaded a key entry (a.place t.space t.context key entry put).1
      (a.place t.space t.context key entry put).2 := by
  unfold place reuseOrBuild
  cases hbound : a.caches.binding? key entry with
  | some x =>
      refine .reused target hbound ⟨⟨rfl, rfl, rfl, rfl, rfl⟩, rfl, rfl, rfl⟩ ?_ rfl
      exact hput _ _
  | none =>
      unfold buildBound build
      dsimp only
      cases hfault : a.trace.factory.fault? 0 with
      | none =>
          rw [Factory.build_of_fault?_eq_none hfault]
          refine .built target hbound hfault ⟨⟨rfl, rfl, rfl, rfl, rfl⟩, rfl, rfl, rfl⟩ ?_ rfl rfl
          exact hput _ _
      | some fault =>
          rw [Factory.build_of_fault? hfault]
          simp only [Except.map, settle]
          cases hversion : (fault.error (a.slotOf t.space key entry).table).isVersion with
          | true =>
              exact .refused target hbound hfault hversion
                ⟨⟨rfl, rfl, rfl, rfl, rfl⟩, rfl, rfl, rfl⟩ rfl rfl
          | false =>
              exact .failed target hbound hfault hversion ⟨⟨rfl, rfl, rfl, rfl, rfl⟩, rfl, rfl, rfl⟩
                rfl rfl rfl

/-- **Loading a row goes in one of five ways.** -/
theorem loadRow_spec (a : Atlas σ) (key : RowKey) (entry : Entry) :
    RowLoaded a key entry (a.loadRow key entry).1 (a.loadRow key entry).2 := by
  have hidle : Idle a (a.resolve entry.space).2 := by
    unfold resolve
    split
    · exact .refl a
    · exact idle_findSpace a entry.space
  have hfst : (a.resolve entry.space).1 = a.resolve? entry.space := by
    unfold resolve resolve?
    split <;> rfl
  unfold loadRow
  revert hidle hfst
  generalize a.resolve entry.space = found
  obtain ⟨found, b⟩ := found
  rintro hidle rfl
  cases hspace : a.resolve? entry.space with
  | none =>
      refine .homeless ?_ (hidle.trans (idle_note b _))
      simp [target?, hspace]
  | some space =>
      -- the rest of the work starts from `b`, which differs from `a` by an idle step
      refine .of_idle hidle ?_
      have hresolve : b.resolve? entry.space = some space :=
        (hidle.toSameWorld.resolve?_eq entry.space).trans hspace
      dsimp only
      unfold placeIn
      split
      · next h =>
          obtain ⟨hregister, hcontexts⟩ :
              space.isRegister = true ∧ b.settings.contexts = false := by
            simpa using h
          refine .homeless ?_ (idle_note b _)
          simp [target?, hresolve, hregister, hcontexts]
      · next h =>
          by_cases hregister : space.isRegister = true
          · have hcontexts : b.settings.contexts = true := by
              simpa [hregister] using h
            rw [if_pos hregister]
            split
            · next hcontext =>
                refine rowLoaded_place (t := ⟨space, none, .memory space⟩) key entry ?_
                  fun _ _ => rfl
                simp [target?, hresolve, hregister, hcontexts, hcontext]
            · next contextKey hcontext =>
                -- a register bank, whose context must be known
                cases hknown : b.context? contextKey with
                | none =>
                    refine .homeless ?_ (idle_note b _)
                    simp [target?, hresolve, hregister, hcontexts, hcontext, hknown]
                | some context =>
                    refine rowLoaded_place
                      (t := ⟨space, some context, .register ⟨contextKey, entry.frame⟩⟩) key entry
                      ?_ fun _ _ => rfl
                    simp [target?, hresolve, hregister, hcontexts, hcontext, hknown]
          · rw [if_neg hregister]
            refine rowLoaded_place (t := ⟨space, none, .memory space⟩) key entry ?_ fun _ _ => rfl
            simp [target?, hresolve, hregister]

end Atlas
end TraceAtlas
