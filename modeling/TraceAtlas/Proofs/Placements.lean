import TraceAtlas.Proofs.RowLoad

/-!
# What a load places

A load walks the rows once, and every row meets slots, bindings and a factory that earlier rows
have changed. For rows with different keys that makes less of a difference than it seems: whether
a row is placed, and with which sub-space, can be told from the atlas `a` before the load and from
how many of the rows in front of it (`before`) asked the factory. `placement?` tells it,
`placements` collects it, and `loadRows_loaded` says that a load that is not refused puts exactly
these sub-spaces in their slots, in row order.
-/

namespace TraceAtlas

/-- How many of the first `n` requests succeed. -/
def Factory.successes (f : Factory) (n : Nat) : Nat :=
  (List.range n).countP fun i => (f.fault? i).isNone

theorem Factory.successes_succ (f : Factory) (n : Nat) :
    f.successes (n + 1) = f.successes n + if (f.fault? n).isNone then 1 else 0 := by
  simp [successes, List.range_succ, List.countP_append]

/-- A sub-space put in a slot, with the row it stands for. -/
structure Placement where
  slot : SlotKey
  bound : Bound

namespace Caches

def putAll (c : Caches) (ps : List Placement) : Caches :=
  ps.foldl (fun c p => c.put p.bound p.slot) c

theorem putAll_cons (c : Caches) (p : Placement) (ps : List Placement) :
    c.putAll (p :: ps) = (c.put p.bound p.slot).putAll ps := rfl

theorem putAll_append (c : Caches) (ps qs : List Placement) :
    c.putAll (ps ++ qs) = (c.putAll ps).putAll qs := List.foldl_append

/-- A slot holds what was put in it last, or what it held if nothing was. -/
theorem at?_putAll_eq_some_iff {c : Caches} {ps : List Placement} {slot : SlotKey} {x : SubSpace} :
    (c.putAll ps).at? slot = some x ↔
      (∃ l p r, ps = l ++ p :: r ∧ p.slot = slot ∧ p.bound.space = x ∧ ∀ q ∈ r, q.slot ≠ slot) ∨
      (c.at? slot = some x ∧ ∀ q ∈ ps, q.slot ≠ slot) := by
  induction ps generalizing c with
  | nil => simp [putAll]
  | cons p ps ih =>
      rw [putAll_cons, ih, at?_put]
      constructor
      -- if nothing of `ps` went to the slot, it is up to `p`
      · rintro (⟨l, q, r, rfl, hq, hx, hr⟩ | ⟨hx, hps⟩)
        · exact .inl ⟨p :: l, q, r, rfl, hq, hx, hr⟩
        · by_cases hslot : slot = p.slot
          · rw [if_pos hslot] at hx
            exact .inl ⟨[], p, ps, rfl, hslot.symm, Option.some.inj hx, hps⟩
          · rw [if_neg hslot] at hx
            exact .inr ⟨hx, List.forall_mem_cons.mpr ⟨Ne.symm hslot, hps⟩⟩
      · rintro (⟨l, q, r, hps, hq, hx, hr⟩ | ⟨hx, hps⟩)
        · cases l with
          | nil =>
              obtain ⟨rfl, rfl⟩ := List.cons.inj hps
              exact .inr ⟨by rw [if_pos hq.symm, hx], hr⟩
          | cons q' l =>
              obtain ⟨rfl, rfl⟩ := List.cons.inj hps
              exact .inl ⟨l, q, r, rfl, hq, hx, hr⟩
        · obtain ⟨hp, hps⟩ := List.forall_mem_cons.mp hps
          exact .inr ⟨by rw [if_neg (Ne.symm hp), hx], hps⟩

/-- A slot holds something that was put in it, or what it held if nothing was. -/
theorem at?_putAll_cases (c : Caches) (ps : List Placement) (slot : SlotKey) :
    (∃ p ∈ ps, p.slot = slot ∧ (c.putAll ps).at? slot = some p.bound.space) ∨
      ((∀ p ∈ ps, p.slot ≠ slot) ∧ (c.putAll ps).at? slot = c.at? slot) := by
  induction ps generalizing c with
  | nil => exact .inr ⟨by simp, rfl⟩
  | cons p ps ih =>
      rw [putAll_cons]
      rcases ih (c.put p.bound p.slot) with ⟨q, hq, hslot, hat⟩ | ⟨hnone, hat⟩
      · exact .inl ⟨q, List.mem_cons_of_mem p hq, hslot, hat⟩
      · rw [hat, at?_put]
        by_cases hslot : p.slot = slot
        · exact .inl ⟨p, List.mem_cons_self, hslot, if_pos hslot.symm⟩
        · exact .inr ⟨List.forall_mem_cons.mpr ⟨hslot, hnone⟩, if_neg (Ne.symm hslot)⟩

theorem get?_bindings_putAll_of_not_mem {c : Caches} {ps : List Placement} {key : RowKey}
    (h : key ∉ ps.map (·.bound.key)) : (c.putAll ps).bindings.get? key = c.bindings.get? key := by
  induction ps generalizing c with
  | nil => rfl
  | cons p ps ih =>
      rw [List.map_cons, List.mem_cons, not_or] at h
      rw [putAll_cons, ih h.2, bindings_put, SortedMap.get?_insert_of_ne _ _ h.1]

theorem get?_bindings_putAll {c : Caches} {ps : List Placement}
    (hkeys : (ps.map (·.bound.key)).Nodup) {p : Placement} (hp : p ∈ ps) :
    (c.putAll ps).bindings.get? p.bound.key = some ⟨p.bound.entry, p.bound.space⟩ := by
  induction ps generalizing c with
  | nil => cases hp
  | cons q ps ih =>
      rw [List.map_cons, List.nodup_cons] at hkeys
      rw [putAll_cons]
      rcases List.mem_cons.mp hp with rfl | hp
      · rw [get?_bindings_putAll_of_not_mem hkeys.1, bindings_put, SortedMap.get?_insert_self]
      · exact ih hkeys.2 hp

theorem Sorted.putAll {c : Caches} (h : c.Sorted) (ps : List Placement) : (c.putAll ps).Sorted := by
  induction ps generalizing c with
  | nil => exact h
  | cons p ps ih => exact ih (h.put p.bound p.slot)

end Caches

namespace Atlas

variable {σ : Type}

/-! ## The placement of a row, from the atlas before the load -/

/-- Whether the factory is asked for the sub-space of a row. -/
def asks (a : Atlas σ) (row : Row) : Bool :=
  (a.target? row.2).isSome && (a.caches.binding? row.1 row.2).isNone

/-- The failure that the factory has for a row behind the rows `before`, should it be asked. -/
def fault? (a : Atlas σ) (before : List Row) : Option Fault :=
  a.trace.factory.fault? (before.countP a.asks)

/-- The serial number of the sub-space that is built next after the rows `before`. -/
def nextSerial (a : Atlas σ) (before : List Row) : Nat :=
  a.trace.factory.built + a.trace.factory.successes (before.countP a.asks)

/-- What loading puts where for a row behind the rows `before`, if anything. -/
def placement? (a : Atlas σ) (before : List Row) (row : Row) : Option Placement :=
  (a.target? row.2).bind fun t =>
    match a.caches.binding? row.1 row.2 with
    | some x => some ⟨t.slot, ⟨row.1, row.2, x⟩⟩
    | none =>
      match a.fault? before with
      | some _ => none
      | none => some ⟨t.slot, ⟨row.1, row.2, a.subSpace (a.nextSerial before) t row.1 row.2⟩⟩

/-- What loading puts where for rows behind the rows `before`. -/
def placements (a : Atlas σ) (before : List Row) : List Row → List Placement
  | [] => []
  | row :: rows => (a.placement? before row).toList ++ a.placements (before ++ [row]) rows

variable {a : Atlas σ}

theorem placement?_row {before : List Row} {row : Row} {p : Placement}
    (h : a.placement? before row = some p) : p.bound.key = row.1 ∧ p.bound.entry = row.2 := by
  unfold placement? at h
  obtain ⟨t, -, h⟩ := Option.bind_eq_some_iff.mp h
  split at h
  · cases h
    exact ⟨rfl, rfl⟩
  · split at h
    · cases h
    · cases h
      exact ⟨rfl, rfl⟩

theorem placements_append (a : Atlas σ) (before xs ys : List Row) :
    a.placements before (xs ++ ys) =
      a.placements before xs ++ a.placements (before ++ xs) ys := by
  induction xs generalizing before with
  | nil => simp [placements]
  | cons row xs ih => simp [placements, ih, List.append_assoc]

theorem placements_concat (a : Atlas σ) (before rows : List Row) (row : Row) :
    a.placements before (rows ++ [row]) =
      a.placements before rows ++ (a.placement? (before ++ rows) row).toList := by
  rw [placements_append]
  simp [placements]

/-- Every placement in a list comes from one row, and the list is cut where the rows are. -/
theorem placements_eq_append_cons {before rows : List Row} {l r : List Placement} {p : Placement}
    (h : a.placements before rows = l ++ p :: r) :
    ∃ front row back, rows = front ++ row :: back ∧ a.placements before front = l ∧
      a.placement? (before ++ front) row = some p ∧
      a.placements (before ++ front ++ [row]) back = r := by
  induction rows generalizing before l with
  | nil => simp [placements] at h
  | cons row rows ih =>
      cases hrow : a.placement? before row with
      | none =>
          -- the row leaves nothing, so the cut is behind it
          have hrest : a.placements (before ++ [row]) rows = l ++ p :: r := by
            simpa [placements, hrow] using h
          obtain ⟨front, row', back, rfl, rfl, hp, rfl⟩ := ih hrest
          refine ⟨row :: front, row', back, rfl, ?_, ?_, ?_⟩
          · simp [placements, hrow]
          · simpa using hp
          · simp
      | some q =>
          have hrest : q :: a.placements (before ++ [row]) rows = l ++ p :: r := by
            simpa [placements, hrow] using h
          cases l with
          | nil =>
              obtain ⟨rfl, rfl⟩ := List.cons.inj hrest
              exact ⟨[], row, rows, rfl, rfl, by simpa using hrow, by simp⟩
          | cons q' l =>
              obtain ⟨rfl, htail⟩ := List.cons.inj hrest
              obtain ⟨front, row', back, rfl, rfl, hp, rfl⟩ := ih htail
              refine ⟨row :: front, row', back, rfl, ?_, ?_, ?_⟩
              · simp [placements, hrow]
              · simpa using hp
              · simp

theorem mem_placements {before rows : List Row} {p : Placement}
    (h : p ∈ a.placements before rows) :
    ∃ front row back, rows = front ++ row :: back ∧
      a.placement? (before ++ front) row = some p := by
  obtain ⟨l, r, h⟩ := List.append_of_mem h
  obtain ⟨front, row, back, hrows, -, hp, -⟩ := placements_eq_append_cons h
  exact ⟨front, row, back, hrows, hp⟩

/-- Placements stand for rows, in row order and each row at most once. -/
theorem keys_placements_sublist (a : Atlas σ) (before rows : List Row) :
    ((a.placements before rows).map (·.bound.key)).Sublist (rows.map Prod.fst) := by
  induction rows generalizing before with
  | nil => exact List.Sublist.refl _
  | cons row rows ih =>
      cases hrow : a.placement? before row with
      | none => simpa [placements, hrow] using (ih _).cons row.1
      | some p =>
          have hkey : p.bound.key = row.1 := (placement?_row hrow).1
          simpa [placements, hrow, hkey] using ih _

/-! ## A whole load -/

/-- The factory finds no other version of the schema at a row behind the rows `before`. -/
def Harmless (a : Atlas σ) (before : List Row) (row : Row) : Prop :=
  ∀ t fault, a.target? row.2 = some t → a.caches.binding? row.1 row.2 = none →
    a.fault? before = some fault →
      (fault.error (a.slotOf t.space row.1 row.2).table).isVersion = false

/-- `b` is `start` after `rows` were loaded, as it can be told from `a`. A load starts from an atlas
whose slots or table may differ from those of `a`, but whose bindings and factory do not. -/
structure Loaded (a start : Atlas σ) (rows : List Row) (b : Atlas σ) :
    Prop extends Kept start b where
  world : SameWorld a b
  bindings : start.caches.bindings = a.caches.bindings
  caches : b.caches = start.caches.putAll (a.placements [] rows)
  plan : b.trace.factory.plan = a.trace.factory.plan.drop (rows.countP a.asks)
  built : b.trace.factory.built = a.nextSerial rows
  harmless : ∀ front row back, rows = front ++ row :: back → a.Harmless front row

variable {start b c : Atlas σ} {rows before : List Row}

theorem Loaded.init (world : SameWorld a start)
    (bindings : start.caches.bindings = a.caches.bindings)
    (factory : start.trace.factory = a.trace.factory) : Loaded a start [] start where
  toKept := .refl start
  world := world
  bindings := bindings
  caches := rfl
  plan := by rw [factory]; rfl
  built := by rw [factory]; simp [nextSerial, Factory.successes]
  harmless := by simp

/-- A row whose key is new to the load meets the binding that it had before the load. -/
theorem Loaded.binding?_eq (h : Loaded a start rows b) {key : RowKey}
    (hkey : key ∉ rows.map Prod.fst) (entry : Entry) :
    b.caches.binding? key entry = a.caches.binding? key entry := by
  have hnot : key ∉ (a.placements [] rows).map (·.bound.key) := fun hmem =>
    hkey ((keys_placements_sublist a [] rows).subset hmem)
  unfold Caches.binding?
  rw [h.caches, Caches.get?_bindings_putAll_of_not_mem hnot, h.bindings]

theorem Loaded.fault?_eq (h : Loaded a start rows b) : b.trace.factory.fault? 0 =
    a.fault? rows := by
  unfold fault? Factory.fault?
  rw [h.plan, List.getElem?_drop, Nat.add_zero]

theorem harmless_concat {row : Row}
    (h : ∀ front row back, rows = front ++ row :: back → a.Harmless front row)
    (hrow : a.Harmless rows row) (front : List Row) (row' : Row) (back : List Row)
    (hsplit : rows ++ [row] = front ++ row' :: back) : a.Harmless front row' := by
  rcases List.append_eq_append_iff.mp hsplit with ⟨l, rfl, hl⟩ | ⟨l, rfl, hl⟩
  · cases l with
    | nil =>
        obtain ⟨rfl, -⟩ := List.cons.inj hl
        simpa using hrow
    | cons x l => simp at hl
  · cases l with
    | nil =>
        obtain ⟨rfl, -⟩ := List.cons.inj hl
        simpa using hrow
    | cons x l =>
        obtain ⟨rfl, -⟩ := List.cons.inj hl
        exact h front row' l rfl

/-- One more row, and what has to be known of its step: it puts in the slots what `placement?`
tells, and uses up one request of the factory if the factory is asked. -/
theorem Loaded.extend (h : Loaded a start rows b) {row : Row} (kept : Kept b c)
    (caches : c.caches = b.caches.putAll (a.placement? rows row).toList)
    (plan : c.trace.factory.plan =
      b.trace.factory.plan.drop (if a.asks row = true then 1 else 0))
    (built : c.trace.factory.built = b.trace.factory.built +
      if a.asks row = true ∧ a.fault? rows = none then 1 else 0)
    (harmless : a.Harmless rows row) : Loaded a start (rows ++ [row]) c where
  toKept := h.toKept.trans kept
  world := h.world.trans kept.toSameWorld
  bindings := h.bindings
  caches := by
    rw [caches, h.caches, placements_concat, Caches.putAll_append, List.nil_append]
  plan := by
    rw [plan, h.plan, List.drop_drop, List.countP_append, List.countP_singleton]
  built := by
    rw [built, h.built]
    unfold nextSerial
    rw [List.countP_append, List.countP_singleton]
    -- the request of this row, if there is one, is the next one
    cases a.asks row with
    | false => simp
    | true =>
        simp only [if_true, true_and, Factory.successes_succ, Nat.add_assoc]
        unfold fault?
        cases a.trace.factory.fault? (rows.countP a.asks) <;> rfl
  harmless := harmless_concat h.harmless harmless

/-- One more row: it is placed as `placement?` tells. -/
theorem Loaded.concat (h : Loaded a start rows b) {key : RowKey} {entry : Entry} {placed : Bool}
    (hkey : key ∉ rows.map Prod.fst) (hrow : RowLoaded b key entry (.ok placed) c) :
    Loaded a start (rows ++ [(key, entry)]) c ∧
      placed = (a.placement? rows (key, entry)).isSome := by
  have hbinding := h.binding?_eq hkey entry
  have hfault := h.fault?_eq
  have htarget := h.world.target?_eq entry
  cases hrow with
  | homeless target idle =>
      rw [htarget] at target
      have hplace : a.placement? rows (key, entry) = none := by simp [placement?, target]
      have hasks : a.asks (key, entry) = false := by simp [asks, target]
      refine ⟨h.extend idle.toKept ?_ ?_ ?_ ?_, by simp [hplace]⟩
      · rw [idle.caches, hplace]
        rfl
      · simp [idle.factory, hasks]
      · simp [idle.factory, hasks]
      · intro t _ ht
        simp [target] at ht
  | @reused _ t x target bound kept caches factory =>
      rw [htarget] at target
      rw [hbinding] at bound
      have hplace : a.placement? rows (key, entry) = some ⟨t.slot, ⟨key, entry, x⟩⟩ := by
        simp [placement?, target, bound]
      have hasks : a.asks (key, entry) = false := by simp [asks, bound]
      refine ⟨h.extend kept ?_ ?_ ?_ ?_, by simp [hplace]⟩
      · rw [caches, hplace]
        rfl
      · simp [factory, hasks]
      · simp [factory, hasks]
      · intro _ _ _ hb
        simp [bound] at hb
  | @built _ t target unbound planned kept caches plan count =>
      rw [htarget] at target
      rw [hbinding] at unbound
      rw [hfault] at planned
      rw [h.world.subSpace_eq, h.built] at caches
      have hplace : a.placement? rows (key, entry) =
          some ⟨t.slot, ⟨key, entry, a.subSpace (a.nextSerial rows) t key entry⟩⟩ := by
        simp [placement?, target, unbound, planned]
      have hasks : a.asks (key, entry) = true := by simp [asks, target, unbound]
      refine ⟨h.extend kept ?_ ?_ ?_ ?_, by simp [hplace]⟩
      · rw [caches, hplace]
        rfl
      · simp [plan, hasks]
      · simp [count, hasks, planned]
      · intro _ _ _ _ hf
        simp [planned] at hf
  | @failed _ t fault target unbound planned harmless kept caches plan count =>
      rw [htarget] at target
      rw [hbinding] at unbound
      rw [hfault] at planned
      have hplace : a.placement? rows (key, entry) = none := by
        simp [placement?, target, unbound, planned]
      have hasks : a.asks (key, entry) = true := by simp [asks, target, unbound]
      refine ⟨h.extend kept ?_ ?_ ?_ ?_, by simp [hplace]⟩
      · rw [caches, hplace]
        rfl
      · simp [plan, hasks]
      · simp [count, hasks, planned]
      · intro t' fault' ht' _ hf'
        rw [target] at ht'
        rw [planned] at hf'
        cases ht'
        cases hf'
        simpa only [slotOf, h.world.settings] using harmless

/-- **A load that is not refused places exactly `placements`,** and answers their keys. -/
theorem loadRows_loaded {keys : List RowKey} (h : Loaded a start before b)
    (hkeys : ((before ++ rows).map Prod.fst).Nodup) (hload : b.loadRows rows = (.ok keys, c)) :
    Loaded a start (before ++ rows) c ∧ keys = (a.placements before rows).map (·.bound.key) := by
  -- by induction on the rows still to come; `h` says what those before them have done
  induction rows generalizing before b keys with
  | nil =>
      cases hload
      exact ⟨by simpa using h, rfl⟩
  | cons row rows ih =>
      obtain ⟨key, entry⟩ := row
      have hspec := loadRow_spec b key entry
      unfold loadRows at hload
      revert hload hspec
      generalize b.loadRow key entry = answer
      obtain ⟨r, d⟩ := answer
      cases r with
      | error e =>
          intro _ hload
          simp at hload
      | ok placed =>
          intro hspec hload
          have hkey : key ∉ before.map Prod.fst := by
            rw [List.map_append, List.nodup_append] at hkeys
            exact fun hmem => hkeys.2.2 key hmem key (by simp) rfl
          obtain ⟨hloaded, hplaced⟩ := h.concat hkey hspec
          cases hrest : d.loadRows rows with
          | mk r c' =>
              cases r with
              | error e => simp [hrest] at hload
              | ok keys' =>
                  simp only [hrest, Prod.mk.injEq, Except.ok.injEq] at hload
                  obtain ⟨hkeys', rfl⟩ := hload
                  obtain ⟨hall, hrestkeys⟩ := ih hloaded (by simpa using hkeys) hrest
                  refine ⟨by simpa using hall, ?_⟩
                  rw [← hkeys', hplaced, hrestkeys]
                  cases hp : a.placement? before (key, entry) with
                  | none => simp [placements, hp]
                  | some p => simp [placements, hp, (placement?_row hp).1]

/-- A load that is refused has placed the rows in front of the one that it stops at. -/
theorem loadRows_refused {e : SpaceError} (h : Loaded a start before b)
    (hkeys : ((before ++ rows).map Prod.fst).Nodup) (hload : b.loadRows rows = (.error e, c)) :
    ∃ front row back d, rows = front ++ row :: back ∧ Loaded a start (before ++ front) d ∧
      RowLoaded d row.1 row.2 (.error e) c := by
  induction rows generalizing before b with
  | nil => cases hload
  | cons row rows ih =>
      obtain ⟨key, entry⟩ := row
      have hspec := loadRow_spec b key entry
      unfold loadRows at hload
      revert hload hspec
      generalize b.loadRow key entry = answer
      obtain ⟨r, d⟩ := answer
      cases r with
      | error e' =>
          intro hspec hload
          cases hload
          exact ⟨[], (key, entry), rows, b, rfl, by simpa using h, hspec⟩
      | ok placed =>
          intro hspec hload
          have hkey : key ∉ before.map Prod.fst := by
            rw [List.map_append, List.nodup_append] at hkeys
            exact fun hmem => hkeys.2.2 key hmem key (by simp) rfl
          obtain ⟨hloaded, -⟩ := h.concat hkey hspec
          cases hrest : d.loadRows rows with
          | mk r c' =>
              cases r with
              | ok keys => simp [hrest] at hload
              | error e' =>
                  simp only [hrest, Prod.mk.injEq, Except.error.injEq] at hload
                  obtain ⟨rfl, rfl⟩ := hload
                  obtain ⟨front, row, back, f, rfl, hfront, hrow⟩ :=
                    ih hloaded (by simpa using hkeys) hrest
                  exact ⟨(key, entry) :: front, row, back, f, rfl, by simpa using hfront, hrow⟩

end Atlas
end TraceAtlas
