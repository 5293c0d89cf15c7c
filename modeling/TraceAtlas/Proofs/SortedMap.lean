import TraceAtlas.SortedMap

/-!
# Laws of sorted maps

What a map answers after it was written to (`get?_insert`, `get?_keepKeys`) and, for maps that are
in key order, how the list of values and the answers determine each other (`mem_entries_iff`), and
that the keys alone decide how they are listed (`keys_eq`).

The first kind of law needs no key order: `insert` puts a new key in front of a larger one, but
`get?` walks the whole list and only asks which keys are equal. Key order matters as soon as the
list itself is read, because without it a key may stand twice.
-/

namespace TraceAtlas.SortedMap

variable {α β : Type} [Ord α]

/-! ## Answers after a write -/

section Lookup

variable [Std.LawfulEqOrd α] [DecidableEq α]

/-- The answer of a map is the value of the first entry under the key. -/
theorem get?_eq (m : SortedMap α β) (k : α) :
    m.get? k = (m.entries.find? fun e => k = e.1).map (·.2) := by
  unfold get?
  congr 2
  funext e
  by_cases h : k = e.1 <;> simp [h]

theorem mem_entries_of_get? {m : SortedMap α β} {k : α} {v : β} (h : m.get? k = some v) :
    (k, v) ∈ m.entries := by
  rw [get?_eq, Option.map_eq_some_iff] at h
  obtain ⟨⟨k', v'⟩, he, rfl⟩ := h
  obtain rfl : k = k' := by simpa using List.find?_some he
  exact List.mem_of_find?_eq_some he

theorem find?_insertSorted (k j : α) (v : β) (es : List (α × β)) :
    ((insertSorted compare k v es).find? fun e => j = e.1).map (·.2) =
      if j = k then some v else (es.find? fun e => j = e.1).map (·.2) := by
  induction es with
  | nil => by_cases h : j = k <;> simp [insertSorted, h]
  | cons e es ih =>
      unfold insertSorted
      split
      · by_cases h : j = k <;> simp [h]
      · next hk =>
          have hke : k = e.1 := Std.LawfulEqOrd.compare_eq_iff_eq.mp hk
          subst hke
          by_cases h : j = e.1 <;> simp [h]
      · next hk =>
          have hke : k ≠ e.1 := by
            intro h
            rw [h, Std.ReflOrd.compare_self] at hk
            cases hk
          by_cases h : j = e.1
          · subst h
            simp [hke.symm]
          · simpa [h] using ih

theorem get?_insert (m : SortedMap α β) (k j : α) (v : β) :
    (m.insert k v).get? j = if j = k then some v else m.get? j := by
  rw [get?_eq, get?_eq]
  exact find?_insertSorted k j v m.entries

@[simp] theorem get?_insert_self (m : SortedMap α β) (k : α) (v : β) :
    (m.insert k v).get? k = some v := by
  simp [get?_insert]

theorem get?_insert_of_ne (m : SortedMap α β) {k j : α} (v : β) (h : j ≠ k) :
    (m.insert k v).get? j = m.get? j := by
  simp [get?_insert, h]

/-- Kept keys answer as before, and no others do. -/
theorem get?_keepKeys (m : SortedMap α β) (p : α → Bool) (k : α) :
    (m.keepKeys p).get? k = if p k then m.get? k else none := by
  simp only [get?_eq, keepKeys, List.find?_filter]
  by_cases hk : p k = true
  · rw [if_pos hk]
    congr 2
    funext e
    by_cases h : k = e.1 <;> simp_all
  · rw [if_neg hk, Option.map_eq_none_iff, List.find?_eq_none]
    rintro ⟨j, v⟩ -
    by_cases h : k = j <;> simp_all

end Lookup

/-- A map answers for the keys that are listed. -/
theorem mem_keys_iff [Std.LawfulEqOrd α] {m : SortedMap α β} {k : α} :
    k ∈ m.keys ↔ (m.get? k).isSome = true := by
  unfold keys get?
  rw [Option.isSome_map, List.find?_isSome, List.mem_map]
  refine exists_congr fun e => and_congr_right fun _ => ?_
  rw [beq_iff_eq, Std.compare_eq_iff_eq, eq_comm]

/-! ## The list of values -/

omit [Ord α] in
/-- An entry after a write is an old one, or has the written value and the written key or an old
one. -/
theorem mem_insertSorted {cmp : α → α → Ordering} {k : α} {v : β} {es : List (α × β)} {e : α × β}
    (h : e ∈ insertSorted cmp k v es) :
    e ∈ es ∨ (e.2 = v ∧ (e.1 = k ∨ ∃ f ∈ es, f.1 = e.1)) := by
  induction es with
  | nil =>
      rw [insertSorted, List.mem_singleton] at h
      subst h
      exact .inr ⟨rfl, .inl rfl⟩
  | cons f es ih =>
      unfold insertSorted at h
      split at h
      · rcases List.mem_cons.mp h with rfl | h
        · exact .inr ⟨rfl, .inl rfl⟩
        · exact .inl h
      · rcases List.mem_cons.mp h with rfl | h
        · exact .inr ⟨rfl, .inr ⟨f, List.mem_cons_self, rfl⟩⟩
        · exact .inl (List.mem_cons_of_mem _ h)
      · rcases List.mem_cons.mp h with rfl | h
        · exact .inl List.mem_cons_self
        · rcases ih h with h | ⟨hv, hk | ⟨g, hg, hk⟩⟩
          · exact .inl (List.mem_cons_of_mem _ h)
          · exact .inr ⟨hv, .inl hk⟩
          · exact .inr ⟨hv, .inr ⟨g, List.mem_cons_of_mem _ hg, hk⟩⟩

theorem mem_values_insert {m : SortedMap α β} {k : α} {v x : β} (h : x ∈ (m.insert k v).values) :
    x = v ∨ x ∈ m.values := by
  obtain ⟨e, he, rfl⟩ := List.mem_map.mp h
  rcases mem_insertSorted he with he | ⟨hv, -⟩
  · exact .inr (List.mem_map_of_mem he)
  · exact .inl hv

omit [Ord α] in
@[simp] theorem values_empty : (empty : SortedMap α β).values = [] := rfl

/-! ## Maps in key order -/

/-- The entries stand in strictly increasing key order, so no key stands twice. -/
def Sorted (m : SortedMap α β) : Prop := m.entries.Pairwise fun e f => compare e.1 f.1 = .lt

theorem sorted_empty : (empty : SortedMap α β).Sorted := List.Pairwise.nil

omit [Ord α] in
theorem pairwise_insertSorted {cmp : α → α → Ordering} [Std.TransCmp cmp] (k : α) (v : β)
    {es : List (α × β)} (h : es.Pairwise fun e f => cmp e.1 f.1 = .lt) :
    (insertSorted cmp k v es).Pairwise fun e f => cmp e.1 f.1 = .lt := by
  induction es with
  | nil => simp [insertSorted]
  | cons e es ih =>
      obtain ⟨hlt, hes⟩ := List.pairwise_cons.mp h
      unfold insertSorted
      split
      · next hk =>
          refine List.pairwise_cons.mpr ⟨?_, h⟩
          intro f hf
          rcases List.mem_cons.mp hf with rfl | hf
          · exact hk
          · exact Std.TransCmp.lt_trans hk (hlt f hf)
      · exact List.pairwise_cons.mpr ⟨hlt, hes⟩
      · next hk =>
          -- `e` stays in front: what stands behind it is an old entry or has the key `k`
          refine List.pairwise_cons.mpr ⟨?_, ih hes⟩
          intro f hf
          rcases mem_insertSorted hf with hf | ⟨-, hfk | ⟨g, hg, hgf⟩⟩
          · exact hlt f hf
          · rw [hfk]
            exact Std.OrientedCmp.gt_iff_lt.mp hk
          · rw [← hgf]
            exact hlt g hg

omit [Ord α] in
/-- A key behind all others goes to the end. -/
theorem insertSorted_of_forall_gt {cmp : α → α → Ordering} {k : α} {v : β} {es : List (α × β)}
    (h : ∀ e ∈ es, cmp k e.1 = .gt) : insertSorted cmp k v es = es ++ [(k, v)] := by
  induction es with
  | nil => rfl
  | cons e es ih =>
      obtain ⟨he, hes⟩ := List.forall_mem_cons.mp h
      simp only [insertSorted, he, ih hes, List.cons_append]

omit [Ord α] in
/-- A new key replaces nothing. -/
theorem insertSorted_perm {cmp : α → α → Ordering} {k : α} {v : β} {es : List (α × β)}
    (h : ∀ e ∈ es, cmp k e.1 ≠ .eq) : (insertSorted cmp k v es).Perm ((k, v) :: es) := by
  induction es with
  | nil => exact .refl _
  | cons e es ih =>
      obtain ⟨he, hes⟩ := List.forall_mem_cons.mp h
      unfold insertSorted
      split
      · exact .refl _
      · next hk => exact absurd hk he
      · exact ((ih hes).cons e).trans (.swap _ _ _)

theorem Sorted.insert [Std.TransOrd α] {m : SortedMap α β} (h : m.Sorted) (k : α) (v : β) :
    (m.insert k v).Sorted := pairwise_insertSorted k v h

theorem Sorted.pairwise_keys {m : SortedMap α β} (h : m.Sorted) :
    m.keys.Pairwise fun j k => compare j k = .lt := List.pairwise_map.mpr h

section Listing

variable [Std.LawfulEqOrd α]

/-- In a map in key order the entries are exactly the answers. -/
theorem Sorted.mem_entries_iff {m : SortedMap α β} (h : m.Sorted) {k : α} {v : β} :
    (k, v) ∈ m.entries ↔ m.get? k = some v := by
  obtain ⟨es⟩ := m
  unfold Sorted at h
  unfold get?
  induction es with
  | nil => simp
  | cons e es ih =>
      obtain ⟨hlt, hes⟩ := List.pairwise_cons.mp h
      rw [List.find?_cons]
      by_cases hk : k = e.1
      · subst hk
        simp only [Std.ReflOrd.compare_self, beq_self_eq_true, Option.map_some, Option.some.injEq]
        constructor
        · intro hm
          rcases List.mem_cons.mp hm with hm | hm
          · rw [← hm]
          · -- all other keys are larger
            have := hlt _ hm
            simp at this
        · rintro rfl
          exact List.mem_cons_self
      · have hne : (compare k e.1 == .eq) = false := by
          simpa [Std.LawfulEqOrd.compare_eq_iff_eq] using hk
        rw [hne]
        simp only [List.mem_cons, ih hes]
        constructor
        · rintro (rfl | hm)
          · exact absurd rfl hk
          · exact hm
        · exact .inr

theorem Sorted.mem_values_iff {m : SortedMap α β} (h : m.Sorted) {v : β} :
    v ∈ m.values ↔ ∃ k, m.get? k = some v := by
  unfold values
  rw [List.mem_map]
  constructor
  · rintro ⟨⟨k, v⟩, he, rfl⟩
    exact ⟨k, h.mem_entries_iff.mp he⟩
  · rintro ⟨k, hk⟩
    exact ⟨(k, v), h.mem_entries_iff.mpr hk, rfl⟩

/-- What tells keys apart tells values apart, so no value is listed twice. -/
theorem Sorted.nodup_map_values {γ : Type} {f : β → γ} {m : SortedMap α β} (h : m.Sorted)
    (hf : ∀ k j v w, m.get? k = some v → m.get? j = some w → f v = f w → k = j) :
    (m.values.map f).Nodup := by
  unfold values
  rw [List.map_map, List.Nodup, List.pairwise_map]
  refine List.Pairwise.imp_of_mem ?_ h
  rintro ⟨k, v⟩ ⟨j, w⟩ hv hw hlt hsame
  have hkj : k = j := hf k j v w (h.mem_entries_iff.mp hv) (h.mem_entries_iff.mp hw) hsame
  rw [hkj, Std.ReflOrd.compare_self] at hlt
  cases hlt

theorem Sorted.nodup_keys {m : SortedMap α β} (h : m.Sorted) : m.keys.Nodup := by
  refine h.pairwise_keys.imp ?_
  rintro j k hlt rfl
  rw [Std.ReflOrd.compare_self] at hlt
  cases hlt

/-- The values are the answers for the keys, one after the other. -/
theorem Sorted.map_some_values {m : SortedMap α β} (h : m.Sorted) :
    m.values.map some = m.keys.map m.get? := by
  unfold values keys
  rw [List.map_map, List.map_map]
  refine List.map_congr_left ?_
  rintro ⟨k, v⟩ he
  exact (h.mem_entries_iff.mp he).symm

/-- Which keys have a value decides in what order they stand. -/
theorem Sorted.keys_eq [Std.TransOrd α] {γ : Type} {m : SortedMap α β} {n : SortedMap α γ}
    (hm : m.Sorted) (hn : n.Sorted) (same : ∀ k, (m.get? k).isSome = (n.get? k).isSome) :
    m.keys = n.keys := by
  refine List.Perm.eq_of_pairwise ?_ hm.pairwise_keys hn.pairwise_keys ?_
  · intro j k _ _ hlt hgt
    rw [Std.OrientedCmp.gt_of_lt hgt] at hlt
    cases hlt
  · rw [List.perm_ext_iff_of_nodup hm.nodup_keys hn.nodup_keys]
    intro k
    rw [mem_keys_iff, mem_keys_iff, same]

end Listing

end TraceAtlas.SortedMap
