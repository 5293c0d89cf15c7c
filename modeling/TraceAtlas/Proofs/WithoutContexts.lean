import TraceAtlas.Proofs.Handles
import TraceAtlas.Proofs.Rooted

/-!
# Registries without contexts

A registry that knows no contexts still has a memory slot for every space that it is asked for, also
for a register space. A load is stricter, for it passes over the rows of register spaces: what was
created for such a space is lost with the next reload, and created again under a second row.
Likewise the row of a space that is merely named like the sentinel is the sentinel's to a load.

Such spaces are `Astray`. `run_keeps` says that nothing is lost or there twice of what was created
under a name unless a space of that name was astray; `not_keeps_register` is a register space that
is lost. The invariant is `Tended`, which knows the rows by the spaces they were created for, and
for every one of these that is `Secure` what is in its slot.
-/

namespace TraceAtlas

/-- In a registry without contexts the row of the space does not lead back to the space's slot. -/
def AddressSpace.Astray (space : AddressSpace) : Prop :=
  space.isRegister = true ∨ space.name = noAddressName ∧ space ≠ .noAddress

instance : DecidablePred AddressSpace.Astray :=
  fun space => inferInstanceAs (Decidable (space.isRegister = true ∨ _))

/-- A space that the directory has, or the sentinel. -/
def Directory.Owns (d : Directory) (space : AddressSpace) : Prop :=
  space = .noAddress ∨ d.find? space.name = some space

instance (d : Directory) : DecidablePred d.Owns :=
  fun space => inferInstanceAs (Decidable (space = .noAddress ∨ _))

/-- The call asks for no space but those that the directory owns. -/
def Call.Asks (d : Directory) : Call → Prop
  | .ask q _ => ∀ space ∈ q.space?, d.Owns space
  | _ => True

instance (d : Directory) : DecidablePred (Call.Asks d)
  | .ask q _ => inferInstanceAs (Decidable (∀ space ∈ q.space?, d.Owns space))
  | .load => isTrue trivial
  | .invalidate => isTrue trivial

/-- The space for which a call may create. -/
def Call.created? : Call → Option AddressSpace
  | .ask q true => q.space?
  | _ => none

theorem Call.Asks.owns {d : Directory} {c : Call} {space : AddressSpace} (h : c.Asks d)
    (created : c.created? = some space) : d.Owns space := by
  cases c with
  | ask q create =>
      cases create with
      | false => cases created
      | true => exact h space created
  | load => cases created
  | invalidate => cases created

namespace Directory

variable {d : Directory} {s t : AddressSpace}

/-- Of spaces that are not astray there is only one of a name. -/
theorem Owns.eq_of_name (hs : d.Owns s) (ht : d.Owns t) (hs' : ¬ s.Astray) (ht' : ¬ t.Astray)
    (hname : s.name = t.name) : s = t := by
  rcases hs with rfl | hs
  · by_contra hne
    exact ht' (.inr ⟨hname.symm, Ne.symm hne⟩)
  · rcases ht with rfl | ht
    · by_contra hne
      exact hs' (.inr ⟨hname, hne⟩)
    · rw [hname] at hs
      exact Option.some.inj (hs.symm.trans ht)

end Directory

namespace Atlas

section Asking

variable {σ : Type} [EntryTable σ] {a : Atlas σ} {q : Query} {create : Bool}

theorem ask_eq_lookupSpace {space : AddressSpace} (named : q.space? = some space) :
    a.ask q create = a.lookupSpace space create := by
  cases q with
  | request request =>
      obtain ⟨space', context, frame⟩ := request
      cases context with
      | none =>
          cases named
          rfl
      | some context => cases named
  | space space' =>
      cases named
      rfl
  | _ => cases named

/-- Without contexts nothing but a space can be asked for with any effect. -/
theorem ask_idle (contexts : a.settings.contexts = false) (unnamed : q.space? = none) :
    Idle a (a.ask q create).2 := by
  have hregister : ∀ key, Idle a (a.lookupRegister key create).2 := by
    intro key
    simp only [lookupRegister, contexts]
    exact idle_note a _
  have hcontext : ∀ context frame, Idle a (a.lookupContext context frame create).2 := by
    intro context frame
    simp only [lookupContext, contexts]
    exact idle_note a _
  cases q with
  | request request =>
      obtain ⟨space, context, frame⟩ := request
      cases context with
      | none => cases unnamed
      | some context => exact hcontext context frame
  | space space => cases unnamed
  | context context frame => exact hcontext context frame
  | frame frame =>
      cases frame with
      | object object => exact hregister _
      | level context level => exact hcontext context level
  | register key => exact hregister key

end Asking

/-! ## Rows of owned spaces -/

variable {σ : Type} {a b s : Atlas σ} {made : List AddressSpace} {rows : List Row}
  {space : AddressSpace} {x : SubSpace}

theorem resolve?_of_owns (owns : a.trace.directory.Owns space) (hastray : ¬ space.Astray) :
    a.resolve? space.name = some space := by
  rcases owns with rfl | hfind
  · rfl
  · unfold resolve?
    split
    · next hname =>
        by_contra hne
        exact hastray (.inr ⟨hname, fun h => hne (h ▸ rfl)⟩)
    · exact hfind

/-- The row of a space that is not astray leads to the space's slot. -/
theorem slot?_unbound (owns : a.trace.directory.Owns space) (hastray : ¬ space.Astray) :
    a.slot? (.unbound space.name) = some (.memory space) := by
  have hregister : ¬ space.isRegister = true := fun h => hastray (.inl h)
  unfold slot? target?
  simp only [Entry.unbound, resolve?_of_owns owns hastray, hregister]
  rfl

/-- No row of an owned space leads to the slot of a space of another name. -/
theorem name_of_slot?_unbound {t : AddressSpace} (owns : a.trace.directory.Owns t)
    (h : a.slot? (.unbound t.name) = some (.memory space)) : t.name = space.name := by
  obtain ⟨u, hu, hslot⟩ := Option.map_eq_some_iff.mp h
  obtain ⟨hresolve, hleads⟩ := target?_eq_some hu
  have hspace : u.space = space := by
    cases hleads with
    | memory slot unbound => exact SlotKey.memory.inj (slot.symm.trans hslot)
    | register slot kind bank => cases slot.symm.trans hslot
  rw [hspace] at hresolve
  change a.resolve? t.name = some space at hresolve
  unfold resolve? at hresolve
  split at hresolve
  · next hname =>
      rw [← Option.some.inj hresolve]
      exact hname
  · next hname =>
      rcases owns with rfl | hfind
      · exact absurd rfl hname
      · rw [Option.some.inj (hfind.symm.trans hresolve)]

/-! ## The invariant -/

/-- A space for which something was created, and no space of its name is astray. -/
structure Secure (made : List AddressSpace) (space : AddressSpace) : Prop where
  mem : space ∈ made
  led : ∀ t ∈ made, t.name = space.name → ¬ t.Astray

/-- The slot of a space holds the sub-space of its row, which is there once if at all. -/
structure Settled (a : Atlas σ) (rows : List Row) (space : AddressSpace) : Prop where
  held : ∀ x, a.caches.at? (.memory space) = some x →
    x.row ∈ rows ∧ x.slot.entry = .unbound space.name
  bound : ∀ row ∈ rows, row.2 = .unbound space.name →
    ∃ x, a.caches.at? (.memory space) = some x ∧ x.row = row ∧
      a.caches.binding? row.1 row.2 = some x

theorem Settled.of_caches (h : a.Settled rows space) (caches : b.caches = a.caches) :
    b.Settled rows space := by
  constructor
  · rw [caches]
    exact h.held
  · rw [caches]
    exact h.bound

theorem Settled.put {key : RowKey} {c : AddressSpace} (h : a.Settled rows space)
    (empty : a.caches.at? (.memory c) = none) (fresh : key ∉ rows.map Prod.fst)
    (row : x.row = (key, .unbound c.name)) (same : c.name = space.name → c = space)
    (caches : b.caches = a.caches.put ⟨key, .unbound c.name, x⟩ (.memory c)) :
    b.Settled (rows ++ [(key, .unbound c.name)]) space := by
  have hat : ∀ p, b.caches.at? p = if p = .memory c then some x else a.caches.at? p := by
    intro p
    rw [caches, Caches.at?_put]
  constructor
  · intro y hy
    rw [hat] at hy
    split at hy
    · next hslot =>
        cases hy
        cases hslot
        refine ⟨?_, congrArg Prod.snd row⟩
        rw [row]
        simp
    · obtain ⟨hmem, hentry⟩ := h.held y hy
      exact ⟨List.mem_append_left _ hmem, hentry⟩
  · intro row' hrow' hentry
    rcases List.mem_append.mp hrow' with hold | hnew
    · obtain ⟨y, hy, hyrow, hbound⟩ := h.bound row' hold hentry
      refine ⟨y, ?_, hyrow, ?_⟩
      · rw [hat, if_neg, hy]
        intro hslot
        rw [hslot, empty] at hy
        cases hy
      · rw [Caches.binding?_eq_some_iff] at hbound ⊢
        rw [caches, Caches.bindings_put, SortedMap.get?_insert_of_ne, hbound]
        rintro rfl
        exact fresh (List.mem_map_of_mem hold)
    · obtain rfl := List.mem_singleton.mp hnew
      obtain rfl := same (congrArg Entry.space hentry)
      refine ⟨x, ?_, row, ?_⟩
      · rw [hat, if_pos rfl]
      · rw [Caches.binding?_eq_some_iff, caches, Caches.bindings_put, SortedMap.get?_insert_self]

variable [EntryTable σ] [LawfulTable σ]

/-- A registry without contexts whose rows were all created for spaces of `made`. -/
structure Tended (made : List AddressSpace) (a : Atlas σ) (rows : List Row) : Prop where
  contexts : a.settings.contexts = false
  reliable : a.trace.factory.Reliable
  owned : ∀ t ∈ made, a.trace.directory.Owns t
  holds : LawfulTable.Holds a.table rows
  keys : (rows.map Prod.fst).Nodup
  created : ∀ row ∈ rows, ∃ t ∈ made, row.2 = .unbound t.name
  settled : ∀ space, Secure made space → a.Settled rows space

omit [EntryTable σ] [LawfulTable σ] in
theorem SameWorld.owns (h : SameWorld a b) (owns : a.trace.directory.Owns space) :
    b.trace.directory.Owns space := owns.imp_right (h.extends_directory.find? _ _)

theorem Tended.of_world (h : Tended made a rows) (world : SameWorld a b)
    (reliable : b.trace.factory.Reliable) (holds : LawfulTable.Holds b.table rows)
    (settled : ∀ space, Secure made space → b.Settled rows space) : Tended made b rows where
  contexts := world.settings ▸ h.contexts
  reliable := reliable
  owned t ht := world.owns (h.owned t ht)
  holds := holds
  keys := h.keys
  created := h.created
  settled := settled

theorem Tended.of_idle (h : Tended made a rows) (idle : Idle a b) : Tended made b rows := by
  refine h.of_world idle.toSameWorld ?_ ?_ fun space hspace => ?_
  · rw [idle.factory]
    exact h.reliable
  · rw [idle.table]
    exact h.holds
  · exact (h.settled space hspace).of_caches idle.caches

theorem Secure.eq_of_name (h : Tended made a rows) {t : AddressSpace} (secure : Secure made space)
    (ht : t ∈ made) (hname : t.name = space.name) : t = space :=
  (h.owned t ht).eq_of_name (h.owned space secure.mem) (secure.led t ht hname)
    (secure.led space secure.mem rfl) hname

theorem Tended.of_filled {r : Except SpaceError (Option SubSpace)} (h : Tended made a rows)
    (hmade : space ∈ made) (hfilled : Filled a (.ofSpace space) r b) :
    ∃ more, Tended made b more := by
  have hworld := hfilled.sameWorld
  have hreliable := hfilled.reliable h.reliable
  cases hfilled with
  | held held => exact ⟨rows, h⟩
  | noRow empty create nothing idle =>
      refine ⟨rows, h.of_world hworld hreliable ?_ fun t ht => ?_⟩
      · rw [idle.table]
        exact LawfulTable.refused_holds h.holds create
      · exact (h.settled t ht).of_caches idle.caches
  | noSpace empty create planned nothing kept caches plan count =>
      rw [h.reliable 0] at planned
      cases planned
  | @made _ key table empty create planned kept caches plan count =>
      obtain ⟨hkey, hholds⟩ := LawfulTable.create_holds h.holds create
      refine ⟨rows ++ [(key, .unbound space.name)], ?_⟩
      refine ⟨hworld.settings ▸ h.contexts, hreliable, fun t ht => hworld.owns (h.owned t ht),
        ?_, nodup_keys_concat h.keys hkey _, ?_, ?_⟩
      · rw [kept.table]
        exact hholds
      · intro row hrow
        rcases List.mem_append.mp hrow with hrow | hrow
        · exact h.created row hrow
        · rw [List.mem_singleton.mp hrow]
          exact ⟨space, hmade, rfl⟩
      · intro t ht
        exact (h.settled t ht).put empty hkey rfl (ht.eq_of_name h hmade) caches

/-! ## Loads -/

omit [EntryTable σ] [LawfulTable σ] in
/-- What a load places for the row of a slot that holds its sub-space is that sub-space. -/
theorem Settled.binding?_eq (h : a.Settled rows space)
    (held : a.caches.at? (.memory space) = some x) :
    a.caches.binding? x.slot.key x.slot.entry = some x := by
  obtain ⟨hmem, hentry⟩ := h.held x held
  obtain ⟨y, hy, -, hbound⟩ := h.bound x.row hmem hentry
  rw [held] at hy
  cases hy
  exact hbound

/-- The rows that lead to the slot of a space are those of the space. -/
theorem Tended.slot?_eq_some_iff (h : Tended made a rows) (secure : Secure made space) {row : Row}
    (hrow : row ∈ rows) :
    a.slot? row.2 = some (.memory space) ↔ row.2 = .unbound space.name := by
  constructor
  · intro hslot
    obtain ⟨t, ht, hentry⟩ := h.created row hrow
    rw [hentry] at hslot ⊢
    rw [name_of_slot?_unbound (h.owned t ht) hslot]
  · intro hentry
    rw [hentry]
    exact slot?_unbound (h.owned space secure.mem) (secure.led space secure.mem rfl)

theorem Tended.lastFor?_of_held (h : Tended made a rows) (secure : Secure made space)
    (held : a.caches.at? (.memory space) = some x) :
    a.lastFor? rows (.memory space) = some x.row := by
  have hsettled := h.settled space secure
  obtain ⟨hmem, hentry⟩ := hsettled.held x held
  refine lastFor?_eq_some_iff.mpr ⟨(h.slot?_eq_some_iff secure hmem).mpr hentry, ?_⟩
  obtain ⟨front, back, hrows⟩ := List.append_of_mem hmem
  refine ⟨front, back, hrows, ?_⟩
  -- a second row of the space would be that of the same sub-space
  intro row hrow hslot
  have hrow' : row ∈ rows := by
    rw [hrows]
    exact List.mem_append_right _ (List.mem_cons_of_mem _ hrow)
  obtain ⟨y, hy, rfl, -⟩ :=
    hsettled.bound row hrow' ((h.slot?_eq_some_iff secure hrow').mp hslot)
  rw [held] at hy
  cases hy
  have hnodup := hrows ▸ h.keys.of_map
  exact (List.nodup_cons.mp (List.nodup_append.mp hnodup).2.1).1 hrow

theorem Tended.lastFor?_of_empty (h : Tended made a rows) (secure : Secure made space)
    (empty : a.caches.at? (.memory space) = none) : a.lastFor? rows (.memory space) = none := by
  refine lastFor?_eq_none_iff.mpr ?_
  intro row hrow hslot
  obtain ⟨y, hy, -, -⟩ := (h.settled space secure).bound row hrow
    ((h.slot?_eq_some_iff secure hrow).mp hslot)
  rw [empty] at hy
  cases hy

/-- A load, on top of what is in the slots or on empty ones, leaves in the slot of a secure space
what was there. -/
theorem Tended.at?_of_loaded {start c : Atlas σ} (h : Tended made a rows)
    (hloaded : Loaded a start rows c)
    (hslots : ∀ p x, start.caches.at? p = some x → a.caches.at? p = some x)
    (secure : Secure made space) :
    c.caches.at? (.memory space) = a.caches.at? (.memory space) := by
  cases hx : a.caches.at? (.memory space) with
  | some x =>
      exact hloaded.at?_of_lastFor? (h.lastFor?_of_held secure hx)
        ((h.settled space secure).binding?_eq hx)
  | none =>
      rw [hloaded.at?_of_lastFor?_eq_none (h.lastFor?_of_empty secure hx),
        Option.eq_none_iff_forall_ne_some]
      intro x hstart
      rw [hslots _ x hstart] at hx
      cases hx

theorem Tended.settled_of_loaded {start c : Atlas σ} (h : Tended made a rows)
    (hloaded : Loaded a start rows c)
    (hslots : ∀ p x, start.caches.at? p = some x → a.caches.at? p = some x)
    (secure : Secure made space) :
    (c.withCaches (c.caches.keepBindings ((a.placements [] rows).map (·.bound.key)))).Settled rows
      space := by
  have hat := h.at?_of_loaded hloaded hslots secure
  have hsettled := h.settled space secure
  constructor
  · intro x hx
    change (c.caches.keepBindings _).at? _ = some x at hx
    rw [Caches.at?_keepBindings, hat] at hx
    exact hsettled.held x hx
  · intro row hrow hentry
    obtain ⟨x, hx, hxrow, hbound⟩ := hsettled.bound row hrow hentry
    refine ⟨x, ?_, hxrow, ?_⟩
    · show (c.caches.keepBindings _).at? _ = some x
      rw [Caches.at?_keepBindings, hat, hx]
    · have hplaced := mem_placements_of_bound hrow
        ((h.slot?_eq_some_iff secure hrow).mpr hentry) hbound
      have hkept := hloaded.binding?_of_mem h.keys hplaced
      show (c.caches.keepBindings _).binding? row.1 row.2 = some x
      rw [Caches.binding?_eq_some_iff] at hkept ⊢
      rw [Caches.get?_bindings_keepBindings, if_pos, hkept]
      exact List.mem_map_of_mem (f := fun p : Placement => p.bound.key) hplaced

theorem Tended.loadTable (h : Tended made a rows) (world : SameWorld a s)
    (bindings : s.caches.bindings = a.caches.bindings) (factory : s.trace.factory = a.trace.factory)
    (hslots : ∀ p x, s.caches.at? p = some x → a.caches.at? p = some x)
    (holds : LawfulTable.Holds s.table rows) :
    s.loadTable.1 = .ok () ∧ Tended made s.loadTable.2 rows ∧ ∀ space, Secure made space →
      s.loadTable.2.caches.at? (.memory space) = a.caches.at? (.memory space) := by
  have read := LawfulTable.rows_eq holds
  have reliable : s.trace.factory.Reliable := factory ▸ h.reliable
  have done := loadTable_ok reliable read
  have hworld := world.trans (sameWorld_loadTable s)
  have hreliable := reliable_loadTable reliable
  obtain ⟨c, hloaded, hresult⟩ := loadTable_loaded world bindings factory read h.keys done
  rw [hresult] at hworld hreliable ⊢
  refine ⟨done, h.of_world hworld hreliable ?_ ?_, ?_⟩
  · show LawfulTable.Holds c.table rows
    rw [hloaded.table]
    exact LawfulTable.rows_holds holds
  · intro space secure
    exact h.settled_of_loaded hloaded hslots secure
  · intro space secure
    show (c.caches.keepBindings _).at? _ = _
    rw [Caches.at?_keepBindings]
    exact h.at?_of_loaded hloaded hslots secure

/-! ## Runs -/

/-- `b` came of `a`: it is tended as well, and the slots of secure spaces hold what they held. -/
structure Follows (made : List AddressSpace) (a b : Atlas σ) : Prop where
  world : SameWorld a b
  tended : ∃ rows, Tended made b rows
  kept : ∀ space, Secure made space → ∀ x, a.caches.at? (.memory space) = some x →
    b.caches.at? (.memory space) = some x

theorem Follows.trans {c : Atlas σ} (h : Follows made a b) (h' : Follows made b c) :
    Follows made a c :=
  ⟨h.world.trans h'.world, h'.tended, fun space secure x hx =>
    h'.kept space secure x (h.kept space secure x hx)⟩

theorem Tended.follows_of_idle (h : Tended made a rows) (idle : Idle a b) : Follows made a b := by
  refine ⟨idle.toSameWorld, ⟨rows, h.of_idle idle⟩, ?_⟩
  intro space _ x hx
  rw [idle.caches]
  exact hx

theorem Tended.follows_of_filled {r : Except SpaceError (Option SubSpace)} (h : Tended made a rows)
    (hmade : space ∈ made) (hfilled : Filled a (.ofSpace space) r b) : Follows made a b :=
  ⟨hfilled.sameWorld, h.of_filled hmade hfilled, fun _ _ x hx => hfilled.at?_mono _ x hx⟩

theorem Tended.load (h : Tended made a rows) : Follows made a a.load.2 := by
  obtain ⟨-, htended, hslots⟩ := h.loadTable (.refl a) rfl rfl (fun _ _ hx => hx) h.holds
  have hidle := idle_report a.loadTable.2
  refine ⟨sameWorld_load a, ⟨rows, htended.of_idle hidle⟩, ?_⟩
  intro space secure x hx
  show a.loadTable.2.report.caches.at? _ = some x
  rw [hidle.caches, hslots space secure, hx]

theorem Tended.invalidate (h : Tended made a rows) : Follows made a a.invalidate.2 := by
  have hempty : ∀ p x, a.clear.caches.at? p = some x → a.caches.at? p = some x := by
    intro p x hx
    cases (Caches.at?_clearSlots a.caches p).symm.trans hx
  obtain ⟨done, htended, hslots⟩ := h.loadTable (sameWorld_clear a) rfl rfl hempty
    (LawfulTable.invalidate_holds h.holds)
  have hforget : Tended made a.clear.loadTable.2.forgetAll rows :=
    htended.of_world (sameWorld_forgetAll _) htended.reliable htended.holds fun space secure =>
      (htended.settled space secure).of_caches rfl
  have hidle := idle_report a.clear.loadTable.2.forgetAll
  refine ⟨sameWorld_invalidate a, ?_, ?_⟩
  · rw [invalidate_snd_of_ok done]
    exact ⟨rows, hforget.of_idle hidle⟩
  · intro space secure x hx
    rw [invalidate_caches, hslots space secure, hx]

/-- A call that creates for no spaces but those of `made` is followed by a tended registry. -/
theorem Tended.perform {c : Call} (h : Tended made a rows) (hmade : ∀ t ∈ c.created?, t ∈ made) :
    Follows made a (a.perform c) := by
  cases c with
  | load => exact h.load
  | invalidate => exact h.invalidate
  | ask q create =>
      cases hspace : q.space? with
      | none => exact h.follows_of_idle (ask_idle h.contexts hspace)
      | some t =>
          show Follows made a (a.ask q create).2
          rw [ask_eq_lookupSpace hspace]
          refine lookupSpace_preserves (P := Follows made a) ?_ ?_ (h.follows_of_idle (.refl a))
          · intro b d hidle hb
            obtain ⟨more, hmore⟩ := hb.tended
            exact hb.trans (hmore.follows_of_idle hidle)
          · intro b d r hcreate _ hfilled hb
            obtain ⟨more, hmore⟩ := hb.tended
            subst hcreate
            exact hb.trans (hmore.follows_of_filled (hmade t hspace) hfilled)

theorem Tended.run {calls : List Call} (h : Tended made a rows)
    (hmade : ∀ c ∈ calls, ∀ t ∈ c.created?, t ∈ made) : Follows made a (a.run calls) := by
  refine run_preserves (P := Follows made a) ?_ (h.follows_of_idle (.refl a))
  intro b c hc hb
  obtain ⟨more, hmore⟩ := hb.tended
  exact hb.trans (hmore.perform (hmade c hc))

variable {settings : Settings} {table : σ} {trace : Trace} {calls : List Call} {name : String}

theorem tended_start (contexts : settings.contexts = false) (reliable : trace.factory.Reliable)
    (empty : LawfulTable.Holds table []) (owned : ∀ t ∈ made, trace.directory.Owns t) :
    ∃ rows, Tended made (start settings table trace).2 rows := by
  have hnew : Tended made ⟨⟨settings, {}, .empty, []⟩, table, trace⟩ [] := by
    refine ⟨contexts, reliable, owned, empty, List.nodup_nil, by simp, ?_⟩
    intro space _
    refine ⟨?_, by simp⟩
    intro x hx
    cases hx
  unfold start
  dsimp only
  split
  · exact hnew.load.tended
  · exact ⟨[], hnew⟩

/-! ## What was created is kept -/

/-- After `calls` on `o` no two rows have one entry with this name, and every space of this name for
which a call created a sub-space, or found it, is answered with that sub-space. -/
structure Keeps (o : Atlas σ) (calls : List Call) (name : String) : Prop where
  once : ∃ rows, (EntryTable.rows (o.run calls).table).1 = .ok rows ∧
    ((rows.map Prod.snd).filter fun entry => entry.space = name).Nodup
  kept : ∀ before space after x, space.name = name →
    calls = before ++ .ask (.space space) true :: after →
      ((o.run before).lookupSpace space true).1 = .ok (some x) →
        ((o.run calls).lookupSpace space false).1 = .ok (some x)

/-- The rows of one name are those of one space, and of these there is one. -/
theorem Tended.once (h : Tended made a rows)
    (led : ∀ t ∈ made, t.name = name → ¬ t.Astray) :
    ((rows.map Prod.snd).filter fun entry => entry.space = name).Nodup := by
  rw [List.filter_map]
  refine List.Nodup.map_on ?_ (h.keys.of_map.filter _)
  intro row hrow row' hrow' hsame
  obtain ⟨hmem, hname⟩ : row ∈ rows ∧ row.2.space = name := by simpa using hrow
  have hmem' : row' ∈ rows := (List.mem_filter.mp hrow').1
  obtain ⟨t, ht, hentry⟩ := h.created row hmem
  have htname : t.name = name := by
    rw [← hname, hentry]
    rfl
  have hsettled := h.settled t ⟨ht, fun u hu hu' => led u hu (hu'.trans htname)⟩
  obtain ⟨x, hx, rfl, -⟩ := hsettled.bound row hmem hentry
  obtain ⟨y, hy, rfl, -⟩ := hsettled.bound row' hmem' (hsame ▸ hentry)
  rw [Option.some.inj (hx.symm.trans hy)]

/-- **A registry without contexts neither loses nor duplicates what it creates,** provided that no
space of the same name for which it creates anything is astray. -/
theorem run_keeps (contexts : settings.contexts = false) (reliable : trace.factory.Reliable)
    (empty : LawfulTable.Holds table []) (asks : ∀ c ∈ calls, c.Asks trace.directory)
    (led : ∀ c ∈ calls, ∀ space ∈ c.created?, space.name = name → ¬ space.Astray) :
    (start settings table trace).2.Keeps calls name := by
  have hmade : ∀ c ∈ calls, ∀ t ∈ c.created?, t ∈ calls.filterMap Call.created? := by
    intro c hc t ht
    exact List.mem_filterMap.mpr ⟨c, hc, ht⟩
  have hled : ∀ t ∈ calls.filterMap Call.created?, t.name = name → ¬ t.Astray := by
    intro t ht hname
    obtain ⟨c, hc, hcreated⟩ := List.mem_filterMap.mp ht
    exact led c hc t hcreated hname
  have howned : ∀ t ∈ calls.filterMap Call.created?, trace.directory.Owns t := by
    intro t ht
    obtain ⟨c, hc, hcreated⟩ := List.mem_filterMap.mp ht
    exact (asks c hc).owns hcreated
  obtain ⟨rows, hstart⟩ : ∃ rows, Tended (calls.filterMap Call.created?)
      (start settings table trace).2 rows := tended_start contexts reliable empty howned
  constructor
  · obtain ⟨more, hmore⟩ := (hstart.run hmade).tended
    exact ⟨more, LawfulTable.rows_eq hmore.holds, hmore.once hled⟩
  · rintro before space after x rfl rfl answered
    have hspace := hmade (.ask (.space space) true) (by simp) space rfl
    obtain ⟨-, ⟨more, hbefore⟩, -⟩ :=
      hstart.run fun c hc => hmade c (List.mem_append_left _ hc)
    obtain ⟨hworld, ⟨_, hasked⟩, -⟩ := hbefore.perform (hmade (.ask (.space space) true) (by simp))
    have hafter := hasked.run fun c (hc : c ∈ after) => hmade c (by simp [hc])
    have hheld := hafter.kept space ⟨hspace, hled⟩ x (lookupSpace_held answered)
    have hadmits := (hworld.trans hafter.world).extends_directory.admits
      (admits_of_answered answered)
    rw [run, List.foldl_append]
    exact lookupSpace_of_admits hadmits hheld

/-- A register space is astray, but not so a memory space and the sentinel. -/
def bareCalls : List Call := [
  .ask (.space ⟨2, "ram", .memory, none⟩) true, .ask (.space .noAddress) true, .invalidate,
  .ask (.space ⟨1, "register", .register, none⟩) true, .invalidate, .load,
  .ask (.request { space := ⟨2, "ram", .memory, none⟩ }) true, .ask (.context .main 0) true]

theorem run_keeps_ram :
    (start { name := "Memory", contexts := false } ({ name := "MemorySpaces" } : MemoryTable)
      .single).2.Keeps bareCalls "ram" :=
  run_keeps rfl orderly_single.reliable (MemoryTable.holds_nil _) (by decide) (by decide)

/-- What is created for the register space is lost in a reload. -/
theorem not_keeps_register :
    ¬ (start { name := "Memory", contexts := false } ({ name := "MemorySpaces" } : MemoryTable)
      .single).2.Keeps [.ask (.space ⟨1, "register", .register, none⟩) true, .invalidate]
        "register" := by
  intro h
  have hkept := h.kept [] ⟨1, "register", .register, none⟩ [.invalidate]
    ⟨0, ⟨1, "register", .register, none⟩, none, ⟨0, .unbound "register", "Memory_register"⟩⟩
    rfl rfl (by decide +kernel)
  revert hkept
  decide +kernel

end Atlas
end TraceAtlas
