import TraceAtlas.Proofs.SortedMap
import TraceAtlas.Registry.Caches

/-!
# Slots and what is put in them

The two kinds of slots are treated alike here: a `SlotKey` names a memory slot or a register slot,
`Caches.at?` says what the slot holds, and `Caches.put` fills it and binds the row.
-/

namespace TraceAtlas

/-! ## The keys are lawfully ordered -/

theorem SpaceKind.rank_injective : Function.Injective SpaceKind.rank := by
  intro k l h
  cases k <;> cases l <;> first | rfl | cases h

theorem AddressSpace.compare_eq_compareLex : (compare : AddressSpace → AddressSpace → Ordering) =
    compareLex (compareOn (·.id)) (compareLex (compareOn (·.name))
      (compareLex (compareOn (·.kind.rank)) (compareOn (·.base)))) := rfl

instance : Std.TransOrd AddressSpace := by
  unfold Std.TransOrd
  rw [AddressSpace.compare_eq_compareLex]
  infer_instance

instance : Std.LawfulEqOrd AddressSpace where
  eq_of_compare {s t} h := by
    obtain ⟨id, name, kind, base⟩ := s
    obtain ⟨id', name', kind', base'⟩ := t
    simp only [AddressSpace.compare_eq_compareLex, compareLex_eq_eq, compareOn,
      Std.LawfulEqOrd.compare_eq_iff_eq] at h
    obtain ⟨rfl, rfl, hkind, rfl⟩ := h
    rw [SpaceKind.rank_injective hkind]

theorem Bank.compare_eq_compareLex : (compare : Bank → Bank → Ordering) =
    compareLex (compareOn (·.context)) (compareOn (·.frame)) := rfl

instance : Std.TransOrd Bank := by
  unfold Std.TransOrd
  rw [Bank.compare_eq_compareLex]
  infer_instance

instance : Std.LawfulEqOrd Bank where
  eq_of_compare {s t} h := by
    obtain ⟨context, frame⟩ := s
    obtain ⟨context', frame'⟩ := t
    simp only [Bank.compare_eq_compareLex, compareLex_eq_eq, compareOn,
      Std.LawfulEqOrd.compare_eq_iff_eq] at h
    obtain ⟨rfl, rfl⟩ := h
    rfl

theorem ObjectSlot.compare_eq_compareLex : (compare : ObjectSlot → ObjectSlot → Ordering) =
    compareLex (compareOn (·.object)) (compareOn (·.frame)) := rfl

instance : Std.TransOrd ObjectSlot := by
  unfold Std.TransOrd
  rw [ObjectSlot.compare_eq_compareLex]
  infer_instance

instance : Std.LawfulEqOrd ObjectSlot where
  eq_of_compare {s t} h := by
    obtain ⟨object, frame⟩ := s
    obtain ⟨object', frame'⟩ := t
    simp only [ObjectSlot.compare_eq_compareLex, compareLex_eq_eq, compareOn,
      Std.LawfulEqOrd.compare_eq_iff_eq] at h
    obtain ⟨rfl, rfl⟩ := h
    rfl

/-! ## Slots of both kinds -/

/-- Names a slot: a memory slot by its space, a register slot by its bank. -/
inductive SlotKey where
  | memory (space : AddressSpace)
  | register (bank : Bank)
deriving DecidableEq, Repr

/-- The row that a sub-space was built for. -/
def SubSpace.row (x : SubSpace) : Row := (x.slot.key, x.slot.entry)

namespace Caches

def at? (c : Caches) : SlotKey → Option SubSpace
  | .memory space => c.memory.get? space
  | .register bank => c.registers.get? bank

/-- Puts a sub-space in a slot and binds its row. -/
def put (c : Caches) (b : Bound) : SlotKey → Caches
  | .memory space => c.putMemory space b
  | .register bank => c.putRegister bank b

@[simp] theorem at?_put (c : Caches) (b : Bound) (p q : SlotKey) :
    (c.put b p).at? q = if q = p then some b.space else c.at? q := by
  cases p <;> cases q <;> simp [put, at?, putMemory, putRegister, bind, SortedMap.get?_insert]

@[simp] theorem bindings_put (c : Caches) (b : Bound) (p : SlotKey) :
    (c.put b p).bindings = c.bindings.insert b.key ⟨b.entry, b.space⟩ := by
  cases p <;> rfl

@[simp] theorem at?_clearSlots (c : Caches) (p : SlotKey) : c.clearSlots.at? p = none := by
  cases p <;> rfl

@[simp] theorem at?_keepBindings (c : Caches) (keys : List RowKey) (p : SlotKey) :
    (c.keepBindings keys).at? p = c.at? p := by
  cases p <;> rfl

theorem get?_bindings_keepBindings (c : Caches) (keys : List RowKey) (key : RowKey) :
    (c.keepBindings keys).bindings.get? key =
      if key ∈ keys then c.bindings.get? key else none := by
  simp [keepBindings, SortedMap.get?_keepKeys]

theorem binding?_eq_some_iff {c : Caches} {key : RowKey} {entry : Entry} {x : SubSpace} :
    c.binding? key entry = some x ↔ c.bindings.get? key = some ⟨entry, x⟩ := by
  unfold binding?
  cases h : c.bindings.get? key with
  | none => simp
  | some b =>
      obtain ⟨entry', y⟩ := b
      by_cases he : entry' = entry <;> simp [he]

theorem mem_spaces_put {c : Caches} {b : Bound} {p : SlotKey} {x : SubSpace}
    (h : x ∈ (c.put b p).spaces) : x = b.space ∨ x ∈ c.spaces := by
  rcases List.mem_append.mp h with h | h <;> cases p with
  | memory space =>
      first
      | exact (SortedMap.mem_values_insert h).imp_right (List.mem_append_left _)
      | exact .inr (List.mem_append_right _ h)
  | register bank =>
      first
      | exact (SortedMap.mem_values_insert h).imp_right (List.mem_append_right _)
      | exact .inr (List.mem_append_left _ h)

/-! ## Slots in order -/

/-- Both kinds of slots are listed in key order, so no slot is listed twice. -/
structure Sorted (c : Caches) : Prop where
  memory : c.memory.Sorted
  registers : c.registers.Sorted

theorem sorted_empty : Sorted {} := ⟨SortedMap.sorted_empty, SortedMap.sorted_empty⟩

theorem Sorted.put {c : Caches} (h : c.Sorted) (b : Bound) (p : SlotKey) : (c.put b p).Sorted := by
  cases p with
  | memory space => exact ⟨h.memory.insert space b.space, h.registers⟩
  | register bank => exact ⟨h.memory, h.registers.insert bank b.space⟩

theorem sorted_clearSlots (c : Caches) : c.clearSlots.Sorted :=
  ⟨SortedMap.sorted_empty, SortedMap.sorted_empty⟩

theorem Sorted.keepBindings {c : Caches} (h : c.Sorted) (keys : List RowKey) :
    (c.keepBindings keys).Sorted := ⟨h.memory, h.registers⟩

theorem Sorted.mem_spaces_iff {c : Caches} (h : c.Sorted) {x : SubSpace} :
    x ∈ c.spaces ↔ ∃ p, c.at? p = some x := by
  unfold spaces memorySpaces registerSpaces
  rw [List.mem_append, h.memory.mem_values_iff, h.registers.mem_values_iff]
  constructor
  · rintro (⟨s, hs⟩ | ⟨b, hb⟩)
    · exact ⟨.memory s, hs⟩
    · exact ⟨.register b, hb⟩
  · rintro ⟨s | b, h⟩
    · exact .inl ⟨s, h⟩
    · exact .inr ⟨b, h⟩

/-- What tells slots apart tells the sub-spaces in them apart. -/
theorem Sorted.nodup_map_spaces {γ : Type} {f : SubSpace → γ} {c : Caches} (h : c.Sorted)
    (hf : ∀ p q x y, c.at? p = some x → c.at? q = some y → f x = f y → p = q) :
    (c.spaces.map f).Nodup := by
  unfold spaces
  rw [List.map_append, List.nodup_append]
  refine ⟨?_, ?_, ?_⟩
  · apply h.memory.nodup_map_values
    intro s t x y hx hy hsame
    exact SlotKey.memory.inj (hf (.memory s) (.memory t) x y hx hy hsame)
  · apply h.registers.nodup_map_values
    intro s t x y hx hy hsame
    exact SlotKey.register.inj (hf (.register s) (.register t) x y hx hy hsame)
  · -- a memory slot is no register slot
    intro z hz w hw hsame
    obtain ⟨x, hx, rfl⟩ := List.mem_map.mp hz
    obtain ⟨y, hy, rfl⟩ := List.mem_map.mp hw
    obtain ⟨s, hs⟩ := h.memory.mem_values_iff.mp hx
    obtain ⟨b, hb⟩ := h.registers.mem_values_iff.mp hy
    cases hf (.memory s) (.register b) x y hs hb hsame

end Caches
end TraceAtlas
