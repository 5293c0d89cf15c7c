import TraceAtlas.Atlas.Create
import TraceAtlas.Proofs.RowLoad

/-!
# Filling one slot

Memory slots and register slots are filled by the same steps: what the slot holds is the answer,
and only an empty slot gets a new row and a sub-space. `fillSlot` is these steps for either kind
of slot, and `Filled` the four ways in which they can go.
-/

namespace TraceAtlas

namespace Target

/-- Where a space belongs that has a memory slot. -/
def ofSpace (space : AddressSpace) : Target := ⟨space, none, .memory space⟩

/-- Where the register bank of a frame belongs. -/
def ofBank (registers : AddressSpace) (context : ExecutionContext) (frame : UInt32) : Target :=
  ⟨registers, some context, .register ⟨context.key, frame⟩⟩

/-- The entry that is persisted for a slot when it is filled. -/
def entry (t : Target) : Entry :=
  match t.slot with
  | .memory _ => .unbound t.space.name
  | .register bank => ⟨t.space.name, bank.context, bank.frame⟩

end Target

namespace Atlas

variable {σ : Type} [EntryTable σ]

/-- What the slot of a target holds; an empty slot is filled. -/
def fillSlot (a : Atlas σ) (t : Target) : Answer σ (Option SubSpace) :=
  match a.caches.at? t.slot with
  | some x => (.ok (some x), a)
  | none =>
    match a.createBound t.space t.context t.entry with
    | (.error e, a) => (.error e, a)
    | (.ok none, a) => (.ok none, a)
    | (.ok (some b), a) => (.ok (some b.space), a.withCaches (a.caches.put b t.slot))

theorem memoryOrCreate_eq_fillSlot (a : Atlas σ) (space : AddressSpace) :
    a.memoryOrCreate space = a.fillSlot (.ofSpace space) := rfl

/-- Filling the slot of `t` on `a` can answer `r` and leave `b`. -/
inductive Filled (a : Atlas σ) (t : Target) : Except SpaceError (Option SubSpace) → Atlas σ → Prop
  | held {x : SubSpace} (held : a.caches.at? t.slot = some x) : Filled a t (.ok (some x)) a
  /-- The table refuses the row. -/
  | noRow {r : Except SpaceError (Option SubSpace)} {b : Atlas σ} {e : TableError} {table : σ}
      (empty : a.caches.at? t.slot = none)
      (create : EntryTable.create t.entry a.table = (.error e, table))
      (nothing : ∀ x, r ≠ .ok (some x)) (idle : Idle { a with table } b) : Filled a t r b
  /-- The row is there, but the factory fails. -/
  | noSpace {r : Except SpaceError (Option SubSpace)} {b : Atlas σ} {key : RowKey} {table : σ}
      {fault : Fault} (empty : a.caches.at? t.slot = none)
      (create : EntryTable.create t.entry a.table = (.ok key, table))
      (planned : a.trace.factory.fault? 0 = some fault) (nothing : ∀ x, r ≠ .ok (some x))
      (kept : Kept { a with table } b) (caches : b.caches = a.caches)
      (plan : b.trace.factory.plan = a.trace.factory.plan.tail)
      (count : b.trace.factory.built = a.trace.factory.built) : Filled a t r b
  | made {b : Atlas σ} {key : RowKey} {table : σ} (empty : a.caches.at? t.slot = none)
      (create : EntryTable.create t.entry a.table = (.ok key, table))
      (planned : a.trace.factory.fault? 0 = none) (kept : Kept { a with table } b)
      (caches : b.caches =
        a.caches.put ⟨key, t.entry, a.subSpace a.trace.factory.built t key t.entry⟩ t.slot)
      (plan : b.trace.factory.plan = a.trace.factory.plan.tail)
      (count : b.trace.factory.built = a.trace.factory.built + 1) :
      Filled a t (.ok (some (a.subSpace a.trace.factory.built t key t.entry))) b

/-- What is in slots and bound stays as it is, or a new sub-space is put in the slot. -/
theorem Filled.placed {a b : Atlas σ} {t : Target} {r : Except SpaceError (Option SubSpace)}
    (h : Filled a t r b) :
    (b.caches = a.caches ∧ b.trace.factory.built = a.trace.factory.built) ∨
      ∃ key, b.caches =
          a.caches.put ⟨key, t.entry, a.subSpace a.trace.factory.built t key t.entry⟩ t.slot ∧
        b.trace.factory.built = a.trace.factory.built + 1 := by
  cases h with
  | held held => exact .inl ⟨rfl, rfl⟩
  | noRow empty create nothing idle => exact .inl ⟨idle.caches, by rw [idle.factory]⟩
  | noSpace empty create planned nothing kept caches plan count => exact .inl ⟨caches, count⟩
  | made empty create planned kept caches plan count => exact .inr ⟨_, caches, count⟩

/-- **Filling a slot goes in one of four ways.** -/
theorem fillSlot_spec (a : Atlas σ) (t : Target) :
    Filled a t (a.fillSlot t).1 (a.fillSlot t).2 := by
  unfold fillSlot
  cases hempty : a.caches.at? t.slot with
  | some x => exact .held hempty
  | none =>
      unfold createBound
      rcases hcreate : EntryTable.create t.entry a.table with ⟨created, table⟩
      dsimp only
      cases created with
      | error e =>
          -- whosever error it is, there is no row
          unfold settle
          cases hversion : e.isVersion <;> simp only [hversion] <;>
            exact .noRow hempty hcreate (by simp)
              ⟨⟨⟨rfl, rfl, rfl, rfl, rfl⟩, rfl, rfl, rfl⟩, rfl, rfl⟩
      | ok key =>
          unfold buildBound build note
          dsimp only
          cases hfault : a.trace.factory.fault? 0 with
          | none =>
              rw [Factory.build_of_fault?_eq_none hfault]
              exact .made hempty hcreate hfault ⟨⟨rfl, rfl, rfl, rfl, rfl⟩, rfl, rfl, rfl⟩
                rfl rfl rfl
          | some fault =>
              rw [Factory.build_of_fault? hfault]
              simp only [Except.map, settle]
              cases hversion : (fault.error (slotOf _ t.space key t.entry).table).isVersion <;>
                exact .noSpace hempty hcreate hfault (by simp)
                  ⟨⟨rfl, rfl, rfl, rfl, rfl⟩, rfl, rfl, rfl⟩ rfl rfl rfl

end Atlas
end TraceAtlas
