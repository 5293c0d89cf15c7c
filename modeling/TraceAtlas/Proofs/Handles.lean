import TraceAtlas.Proofs.Peek

/-!
# Handles

However a caller names a sub-space, a lookup comes down to one of three things: an address space, a
frame of a context, or an object for a frame. Such a `Handle` is what the registry files its answers
under, each kind in a map of its own, and `held?` says what it has there.

No lookup takes back what is held (`stable_holds`), whatever fails in it, and what others do to the
table and the surroundings never reaches the three maps. A lookup by a handle that is held finds it
before it asks the table, the factory or the directory for anything new (`ask_of_holds`). So between
two loads a caller who was given a sub-space for a handle will be given no other one.
-/

namespace TraceAtlas

/-- The caller named something that the trace does not stand for; nothing persisted is at fault. -/
def SpaceError.blamesCaller : SpaceError → Bool
  | foreignSpace _ | unkeepableSpace _ | contextWithoutObject _ | notMine _ => true
  | schema _ _ | cannotOpen _ _ => false

/-- Overlays are found and minted. -/
structure Directory.OffersOverlays (d : Directory) : Prop where
  up : d.overlaysDown = false
  current : d.overlaysOutdated = false

theorem Atlas.SameWorld.offersOverlays {σ : Type} {a b : Atlas σ} (h : Atlas.SameWorld a b)
    (offers : a.trace.directory.OffersOverlays) : b.trace.directory.OffersOverlays := by
  rw [h.directory]
  exact ⟨offers.up, offers.current⟩

/-- What a registry files an answer under. -/
inductive Handle where
  | space (space : AddressSpace)
  | bank (bank : Bank)
  | object (slot : ObjectSlot)
deriving DecidableEq, Repr

def RegisterKey.handle : RegisterKey → Handle
  | .frame c level => .bank ⟨c.key, level⟩
  | .object o level => .object ⟨o.id, level⟩

theorem RegisterKey.handle_ne_space (key : RegisterKey) (space : AddressSpace) :
    key.handle ≠ .space space := by
  cases key <;> simp [handle]

def Call.isAsk : Call → Bool
  | .ask _ _ => true
  | _ => false

/-- The event is a lookup, or something that others do. -/
def Event.IsLookup {σ : Type} : Event σ → Prop
  | .call c => c.isAsk = true
  | .others _ _ => True

namespace Atlas

variable {σ : Type}

/-- The handle of a frame, if the context can be told from others in this trace. -/
def frameHandle? (a : Atlas σ) (context : ExecutionContext) (frame : UInt32) : Option Handle :=
  (a.registerKey context frame).toOption.map RegisterKey.handle

/-- The handle that a lookup names, directly or through a context or a stack frame. -/
def handle? (a : Atlas σ) : Query → Option Handle
  | .request ⟨space, none, _⟩ => some (.space space)
  | .request ⟨_, some context, frame⟩ => a.frameHandle? context frame
  | .space space => some (.space space)
  | .context context frame => a.frameHandle? context frame
  | .frame (.object object) => some (.object ⟨object.id, 0⟩)
  | .frame (.level context level) => a.frameHandle? context level
  | .register key => some key.handle

/-- What the registry has under a handle. -/
def held? (a : Atlas σ) : Handle → Option SubSpace
  | .space space => a.caches.at? (.memory space)
  | .bank bank => a.caches.at? (.register bank)
  | .object slot => a.registry.byObject.get? slot

/-- The registry has `x` under a handle and lets callers ask for it. -/
structure Holds (a : Atlas σ) (h : Handle) (x : SubSpace) : Prop where
  held : a.held? h = some x
  /-- Handles of register banks are of no use without contexts. -/
  contexts : a.settings.contexts = true ∨ ∃ space, h = .space space

variable {a b : Atlas σ} {h : Handle} {x : SubSpace} {q : Query} {create : Bool}

theorem Holds.of_grown (ha : a.Holds h x) (settings : b.settings = a.settings)
    (slots : ∀ p x, a.caches.at? p = some x → b.caches.at? p = some x)
    (objects : ∀ p x, a.registry.byObject.get? p = some x → b.registry.byObject.get? p = some x) :
    b.Holds h x := by
  refine ⟨?_, settings ▸ ha.contexts⟩
  have held := ha.held
  cases h with
  | space space => exact slots (.memory space) x held
  | bank bank => exact slots (.register bank) x held
  | object slot => exact objects slot x held

theorem Holds.of_idle (hidle : Idle a b) (ha : a.Holds h x) : b.Holds h x := by
  apply ha.of_grown hidle.settings
  · simp [hidle.caches]
  · simp [hidle.byObject]

variable [EntryTable σ]

/-! ## No lookup takes anything back -/

theorem stable_holds (q : Query) (create : Bool) (h : Handle) (x : SubSpace) :
    Stable q create fun a : Atlas σ => a.Holds h x where
  idle hidle ha := ha.of_idle hidle
  mint _ hminted ha := by
    apply ha.of_grown hminted.idle.settings
    · simp [hminted.idle.caches]
      exact fun _ _ held => held
    · simp [hminted.idle.byObject]
  fill _ _ hfilled ha := by
    apply ha.of_grown hfilled.sameWorld.settings hfilled.at?_mono
    simp [hfilled.byObject_eq]
  remember {a object frame _ _ y} _ hfresh _ ha := by
    refine ha.of_grown rfl (fun _ _ held => held) ?_
    intro p z held
    show (a.registry.byObject.insert ⟨object.id, frame⟩ y).get? p = some z
    rw [SortedMap.get?_insert_of_ne _ _ ?_]
    · exact held
    · -- what is kept is kept where nothing was
      rintro rfl
      exact absurd (hfresh.symm.trans held) (by simp)

/-! ## The ways that lookups take -/

/-- The ways in which a lookup can go. -/
inductive Routed (a : Atlas σ) (q : Query) (create : Bool) : Prop
  | space {space : AddressSpace} (handle : a.handle? q = some (.space space))
      (eq : a.ask q create = a.lookupSpace space create)
  | register {key : RegisterKey} (handle : a.handle? q = some key.handle)
      (named : ∀ object level, key = .object object level → q.object? = some object)
      (eq : a.ask q create = a.lookupRegister key create)
  | refused {e : SpaceError} (blame : e.blamesCaller = true) (eq : a.ask q create = (.error e, a))
  /-- A frame of a context is asked for in a registry that knows no contexts. -/
  | noContexts {b : Atlas σ} (contexts : a.settings.contexts = false)
      (handle : ∀ space, a.handle? q ≠ some (.space space)) (idle : Idle a b)
      (eq : a.ask q create = (.ok none, b))

theorem routed_context {context : ExecutionContext} {frame : UInt32}
    (handle : a.handle? q = a.frameHandle? context frame) (named : q.object? = context.object)
    (eq : a.ask q create = a.lookupContext context frame create) : Routed a q create := by
  unfold lookupContext at eq
  by_cases hcontexts : a.settings.contexts = true
  · by_cases howns : ContextDirectory.owns a.trace.contexts context = true
    · simp only [hcontexts, howns, Bool.not_true, Bool.false_eq_true, if_false] at eq
      unfold frameHandle? at handle
      cases hkey : a.registerKey context frame with
      | error e =>
          simp only [hkey] at eq
          refine .refused ?_ eq
          unfold registerKey at hkey
          split at hkey
          · split at hkey <;> cases hkey
            rfl
          · cases hkey
      | ok key =>
          simp only [hkey] at eq handle
          refine .register handle ?_ eq
          rintro object level rfl
          exact named.trans (registerKey_eq_object hkey)
    · simp only [hcontexts, howns, Bool.not_true, Bool.false_eq_true, if_false, if_true,
        Bool.not_false] at eq
      exact .refused rfl eq
  · have hnone : a.settings.contexts = false := by simpa using hcontexts
    simp only [hnone, Bool.not_false, if_true] at eq
    refine .noContexts hnone ?_ (idle_note a _) eq
    intro space hspace
    rw [handle, frameHandle?, Option.map_eq_some_iff] at hspace
    obtain ⟨key, -, hkey⟩ := hspace
    exact key.handle_ne_space space hkey

/-- **Every lookup goes to a space or to a register bank, unless it is turned away before.** -/
theorem routed (a : Atlas σ) (q : Query) (create : Bool) : Routed a q create := by
  cases q with
  | request request =>
      obtain ⟨space, context, frame⟩ := request
      cases context with
      | none => exact .space rfl rfl
      | some context => exact routed_context rfl rfl rfl
  | space space => exact .space rfl rfl
  | context context frame => exact routed_context rfl rfl rfl
  | frame frame =>
      cases frame with
      | object object =>
          have handle : a.handle? (.frame (.object object)) =
              some (RegisterKey.object object 0).handle := rfl
          refine .register handle ?_ rfl
          rintro object' level heq
          cases heq
          rfl
      | level context level => exact routed_context rfl rfl rfl
  | register key =>
      refine .register rfl ?_ rfl
      rintro object level rfl
      rfl

/-! ## What is answered is held -/

theorem fillSlot_held {t : Target} (answered : (a.fillSlot t).1 = .ok (some x)) :
    (a.fillSlot t).2.caches.at? t.slot = some x := by
  have hspec := fillSlot_spec a t
  rw [answered] at hspec
  exact hspec.at?_eq

theorem lookupSpace_held {space : AddressSpace}
    (answered : (a.lookupSpace space create).1 = .ok (some x)) :
    (a.lookupSpace space create).2.caches.at? (.memory space) = some x := by
  unfold lookupSpace at answered ⊢
  generalize a.check space = checked at answered ⊢
  obtain ⟨_ | _, b⟩ := checked
  · simp at answered
  · cases create with
    | false => exact Except.ok.inj answered
    | true =>
        simp only [if_true] at answered ⊢
        rw [(idle_report _).caches]
        exact fillSlot_held (t := .ofSpace space) answered

theorem bank_held {context : ExecutionContext} {frame : UInt32}
    (answered : (a.bank context frame create).1 = .ok (some x)) :
    (a.bank context frame create).2.caches.at? (.register ⟨context.key, frame⟩) = some x := by
  cases create with
  | false => exact Except.ok.inj answered
  | true =>
      exact fillSlot_held (t := .ofBank a.settings.language.registerSpace context frame) answered

theorem throughObject_held {object : ObjectRef} {frame : UInt32}
    (answered : (a.throughObject object frame create).1 = .ok (some x)) :
    (a.throughObject object frame create).2.objectHit object frame = some x := by
  unfold throughObject at answered ⊢
  cases hhit : a.objectHit object frame with
  | some y =>
      simp only [hhit] at answered ⊢
      exact Except.ok.inj answered
  | none =>
      simp only [hhit] at answered ⊢
      generalize a.container object frame = led at answered ⊢
      obtain ⟨_ | container, b⟩ := led
      · simp at answered
      · dsimp only at answered ⊢
        generalize b.containerSpace container create = found at answered ⊢
        obtain ⟨_ | _ | y, c⟩ := found
        · simp at answered
        · simp at answered
        · cases answered
          exact SortedMap.get?_insert_self _ _ _

theorem lookupRegister_held {key : RegisterKey}
    (answered : (a.lookupRegister key create).1 = .ok (some x)) :
    a.settings.contexts = true ∧ (a.lookupRegister key create).2.held? key.handle = some x := by
  unfold lookupRegister at answered ⊢
  by_cases hcontexts : a.settings.contexts = true
  · simp only [hcontexts, Bool.not_true, Bool.false_eq_true, if_false] at answered ⊢
    refine ⟨trivial, ?_⟩
    cases key with
    | frame context level =>
        show (a.bank context level create).2.report.caches.at? (.register _) = _
        rw [(idle_report _).caches]
        exact bank_held answered
    | object object level =>
        show (a.throughObject object level create).2.report.registry.byObject.get? _ = _
        rw [(idle_report _).byObject]
        exact throughObject_held answered
  · simp [hcontexts] at answered

theorem stable_contexts (q : Query) (create : Bool) :
    Stable q create fun a : Atlas σ => a.settings.contexts = true where
  idle hidle ha := hidle.settings ▸ ha
  mint _ hminted ha := hminted.idle.settings ▸ ha
  fill _ _ hfilled ha := hfilled.sameWorld.settings ▸ ha
  remember _ _ _ ha := ha

theorem ask_holds (handle : a.handle? q = some h) (answered : (a.ask q create).1 = .ok (some x)) :
    (a.ask q create).2.Holds h x := by
  have hcontexts := (stable_contexts q create).ask (a := a)
  rcases routed a q create with ⟨handle', eq⟩ | ⟨handle', -, eq⟩ | ⟨-, eq⟩ | ⟨-, -, -, eq⟩
  · obtain rfl := Option.some.inj (handle'.symm.trans handle)
    rw [eq] at answered ⊢
    exact ⟨lookupSpace_held answered, .inr ⟨_, rfl⟩⟩
  · obtain rfl := Option.some.inj (handle'.symm.trans handle)
    rw [eq] at answered hcontexts ⊢
    obtain ⟨knows, held⟩ := lookupRegister_held answered
    exact ⟨held, .inl (hcontexts knows)⟩
  · simp [eq] at answered
  · simp [eq] at answered

/-! ## What is held is answered -/

omit [EntryTable σ] in
theorem check_blamesCaller {space : AddressSpace} {e : SpaceError}
    (h : (a.check space).1 = .error e) : e.blamesCaller = true := by
  unfold check at h
  dsimp only at h
  split at h
  · cases h
    rfl
  · split at h <;> cases h
    rfl

/-- The lookup answers `x` or blames the caller, and the table is left as it is. -/
structure Serves (a : Atlas σ) (q : Query) (create : Bool) (x : SubSpace) : Prop where
  answer : (a.ask q create).1 = .ok (some x) ∨
    ∃ e, (a.ask q create).1 = .error e ∧ e.blamesCaller = true
  table : (a.ask q create).2.table = a.table

omit [EntryTable σ] in
theorem peekSpace_of_held {space : AddressSpace} (held : a.caches.at? (.memory space) = some x) :
    a.peekSpace space = .ok (some x) ∨
      ∃ e, a.peekSpace space = .error e ∧ e.blamesCaller = true := by
  have hblame : ∀ e, (a.check space).1 = .error e → e.blamesCaller = true :=
    fun _ => check_blamesCaller
  unfold peekSpace
  rw [held]
  cases hcheck : (a.check space).1 with
  | error e => exact .inr ⟨e, rfl, hblame e hcheck⟩
  | ok u => exact .inl rfl

theorem memoryOrCreate_of_held {space : AddressSpace}
    (held : a.caches.at? (.memory space) = some x) :
    a.memoryOrCreate space = (.ok (some x), a) := by
  change a.caches.memory.get? space = some x at held
  simp only [memoryOrCreate, held]

/-- A slot that is filled answers the same, whether the lookup may create or not. -/
theorem lookupSpace_of_held {space : AddressSpace}
    (held : a.caches.at? (.memory space) = some x) (create : Bool) :
    (a.lookupSpace space create).1 = a.peekSpace space ∧
      (a.lookupSpace space create).2.table = a.table := by
  have hcheck := idle_check a space
  unfold lookupSpace peekSpace
  rw [held]
  revert hcheck
  generalize a.check space = checked
  obtain ⟨e | _, b⟩ := checked
  · intro hcheck
    exact ⟨rfl, hcheck.table⟩
  · intro hcheck
    have hb : b.caches.at? (.memory space) = some x := by
      rw [hcheck.caches]
      exact held
    cases create with
    | false => exact ⟨congrArg Except.ok hb, hcheck.table⟩
    | true =>
        simp only [if_true, memoryOrCreate_of_held hb]
        exact ⟨rfl, (idle_report b).table.trans hcheck.table⟩

theorem lookupRegister_of_held {key : RegisterKey} (contexts : a.settings.contexts = true)
    (held : a.held? key.handle = some x) (create : Bool) :
    (a.lookupRegister key create).1 = .ok (some x) ∧
      (a.lookupRegister key create).2.table = a.table := by
  unfold lookupRegister
  simp only [contexts, Bool.not_true, Bool.false_eq_true, if_false, (idle_report _).table]
  cases key with
  | frame context level =>
      change a.caches.registers.get? ⟨context.key, level⟩ = some x at held
      cases create <;> simp [bank, bankOrCreate, held]
  | object object level =>
      change a.objectHit object level = some x at held
      simp [throughObject, held]

/-- **A lookup by a handle that is held answers what is held.** -/
theorem ask_of_holds (ha : a.Holds h x) (handle : a.handle? q = some h) (create : Bool) :
    a.Serves q create x := by
  rcases routed a q create with
    ⟨handle', eq⟩ | ⟨handle', -, eq⟩ | ⟨blame, eq⟩ | ⟨contexts, handle', -, eq⟩
  · obtain rfl := Option.some.inj (handle'.symm.trans handle)
    obtain ⟨answer, table⟩ := lookupSpace_of_held ha.held create
    refine ⟨?_, eq ▸ table⟩
    rw [eq, answer]
    exact peekSpace_of_held ha.held
  · obtain rfl := Option.some.inj (handle'.symm.trans handle)
    have knows : a.settings.contexts = true :=
      ha.contexts.resolve_right fun ⟨space, hspace⟩ => RegisterKey.handle_ne_space _ space hspace
    obtain ⟨answer, table⟩ := lookupRegister_of_held knows ha.held create
    exact ⟨.inl (eq ▸ answer), eq ▸ table⟩
  · exact ⟨.inr ⟨_, by rw [eq], blame⟩, by rw [eq]⟩
  · rcases ha.contexts with knows | ⟨space, rfl⟩
    · rw [contexts] at knows
      cases knows
    · exact absurd handle (handle' space)

/-! ## Spaces of containers -/

theorem stable_true (q : Query) (create : Bool) : Stable q create fun _ : Atlas σ => True where
  idle _ _ := trivial
  mint _ _ _ := trivial
  fill _ _ _ _ := trivial
  remember _ _ _ _ := trivial

omit [EntryTable σ] in
theorem Found.of_idle {object container : ObjectRef} {frame : UInt32} {space : AddressSpace}
    (hfound : a.Found object frame container space x) (hidle : Idle a b) :
    b.Found object frame container space x := by
  apply hfound.of_grown (hidle.container?_eq object frame) hidle.extends_directory
  rw [hidle.caches]
  exact hfound.held

omit [EntryTable σ] in
/-- An overlay that is there is handed out. -/
theorem overlay_of_found {name : String} {space : AddressSpace}
    (offers : a.trace.directory.OffersOverlays)
    (found : a.trace.directory.find? name = some space) :
    (a.overlay name).1 = .ok (some space) ∧ Idle a (a.overlay name).2 := by
  unfold overlay Directory.overlay
  simp only [offers.current, offers.up, found, Bool.false_eq_true, if_false]
  exact ⟨rfl, ⟨⟨⟨rfl, rfl, rfl, rfl, rfl⟩, rfl, rfl, rfl⟩, rfl, rfl⟩⟩

omit [EntryTable σ] in
theorem idle_heldByContainer (a : Atlas σ) (container : ObjectRef) :
    Idle a (a.heldByContainer container).2 := by
  have hidle := idle_findSpace a container.path.text
  unfold heldByContainer
  revert hidle
  generalize a.findSpace container.path.text = answer
  obtain ⟨_ | space, b⟩ := answer <;> intro hidle
  · exact hidle
  · have hcheck := idle_check b space
    dsimp only
    revert hcheck
    generalize b.check space = answer
    obtain ⟨_ | _, c⟩ := answer <;> exact fun hcheck => hidle.trans hcheck

/-- The slot of a container that is filled answers the same, whether the lookup may create or not.
-/
theorem containerSpace_of_held {container : ObjectRef} {space : AddressSpace}
    (offers : a.trace.directory.OffersOverlays)
    (found : a.trace.directory.find? container.path.text = some space)
    (held : a.caches.at? (.memory space) = some x) (create : Bool) :
    (a.containerSpace container create).1 = a.peekSpace space ∧
      (a.containerSpace container create).2.table = a.table := by
  cases create with
  | false =>
      have hheld := heldByContainer_fst a container
      unfold peekContainer at hheld
      rw [found] at hheld
      exact ⟨hheld, (idle_heldByContainer a container).table⟩
  | true =>
      obtain ⟨hoverlay, hidle⟩ := overlay_of_found offers found
      show (a.filledForContainer container).1 = _ ∧ (a.filledForContainer container).2.table = _
      unfold filledForContainer
      revert hoverlay hidle
      generalize a.overlay container.path.text = answer
      obtain ⟨r, b⟩ := answer
      rintro rfl hidle
      have hpeers : Peers id a b := .of_world hidle.toSameWorld fun p => by rw [hidle.caches]
      have hcheck := idle_check b space
      rw [← (hpeers.peekSpace space).eq]
      unfold peekSpace
      rw [hidle.caches, held]
      dsimp only
      revert hcheck
      generalize b.check space = answer
      obtain ⟨_ | _, c⟩ := answer
      · exact fun hcheck => ⟨rfl, hcheck.table.trans hidle.table⟩
      · intro hcheck
        have hc : c.caches.at? (.memory space) = some x := by
          rw [hcheck.caches, hidle.caches]
          exact held
        simp only [memoryOrCreate_of_held hc]
        exact ⟨rfl, hcheck.table.trans hidle.table⟩

/-- An object for which nothing is kept is answered from the slot of its container. -/
theorem lookupRegister_of_container {object container : ObjectRef} {frame : UInt32}
    {space : AddressSpace} (contexts : a.settings.contexts = true)
    (unknown : a.objectHit object frame = none)
    (leads : a.container? object frame = some container)
    (offers : a.trace.directory.OffersOverlays)
    (found : a.trace.directory.find? container.path.text = some space)
    (held : a.caches.at? (.memory space) = some x) (create : Bool) :
    (a.lookupRegister (.object object frame) create).1 = a.peekSpace space ∧
      (a.lookupRegister (.object object frame) create).2.table = a.table := by
  have hidle := idle_container a object frame
  rw [← container_fst] at leads
  unfold lookupRegister throughObject
  simp only [contexts, unknown, Bool.not_true, Bool.false_eq_true, if_false, (idle_report _).table]
  revert hidle leads
  generalize a.container object frame = answer
  obtain ⟨r, b⟩ := answer
  rintro rfl hidle
  have hpeers : Peers id a b := .of_world hidle.toSameWorld fun p => by rw [hidle.caches]
  have hheld : b.caches.at? (.memory space) = some x := by
    rw [hidle.caches]
    exact held
  obtain ⟨hanswer, htable⟩ := containerSpace_of_held (hidle.toSameWorld.offersOverlays offers)
    ((hidle.find?_eq container.path.text).trans found) hheld create
  rw [← (hpeers.peekSpace space).eq, ← hanswer, ← hidle.table, ← htable]
  dsimp only
  generalize b.containerSpace container create = answer
  obtain ⟨_ | _ | _, c⟩ := answer <;> exact ⟨rfl, rfl⟩

/-- What is answered for an object that was not asked for before is in the slot of its container. -/
theorem lookupRegister_found {object : ObjectRef} {frame : UInt32}
    (unknown : a.objectHit object frame = none)
    (answered : (a.lookupRegister (.object object frame) create).1 = .ok (some x)) :
    ∃ container space,
      (a.lookupRegister (.object object frame) create).2.Found object frame container space x := by
  have hstable := stable_true (σ := σ) (.register (.object object frame)) create
  obtain ⟨-, hfound⟩ := hstable.throughObject (a := a) rfl frame trivial
  unfold lookupRegister at answered ⊢
  by_cases hcontexts : a.settings.contexts = true
  · simp only [hcontexts, Bool.not_true, Bool.false_eq_true, if_false] at answered ⊢
    rcases hfound x answered with hhit | ⟨container, space, hfound⟩
    · rw [unknown] at hhit
      cases hhit
    · exact ⟨container, space, hfound.of_idle (idle_report _)⟩
  · simp [hcontexts] at answered

/-- The lookup by `q` comes down to `h`: it names `h`, or it names an object for which nothing is
kept, and `h` is the space in whose slot it finds what it answers. -/
inductive ResolvesTo (a : Atlas σ) (q : Query) (create : Bool) : Handle → Prop
  | named {h : Handle} (handle : a.handle? q = some h) : ResolvesTo a q create h
  | overlay {object container : ObjectRef} {frame : UInt32} {space : AddressSpace}
      (handle : a.handle? q = some (.object ⟨object.id, frame⟩)) (named : q.object? = some object)
      (unknown : a.objectHit object frame = none)
      (leads : (a.ask q create).2.container? object frame = some container)
      (overlay : (a.ask q create).2.trace.directory.find? container.path.text = some space) :
      ResolvesTo a q create (.space space)

/-- What a lookup that names an object comes to. -/
theorem ask_object {object : ObjectRef} {frame : UInt32}
    (handle : a.handle? q = some (.object ⟨object.id, frame⟩)) (named : q.object? = some object)
    (create : Bool) :
    a.ask q create = a.lookupRegister (.object object frame) create ∨
      (∃ e, e.blamesCaller = true ∧ a.ask q create = (.error e, a)) ∨
      (a.settings.contexts = false ∧ ∃ b, Idle a b ∧ a.ask q create = (.ok none, b)) := by
  rcases routed a q create with
    ⟨handle', eq⟩ | @⟨key, handle', named', eq⟩ | ⟨blame, eq⟩ | ⟨contexts, -, idle, eq⟩
  · rw [handle] at handle'
    cases handle'
  · rw [handle] at handle'
    cases key with
    | frame context level => cases handle'
    | object object' level =>
        obtain rfl : object = object' :=
          Option.some.inj (named.symm.trans (named' object' level rfl))
        obtain rfl : frame = level :=
          congrArg ObjectSlot.frame (Handle.object.inj (Option.some.inj handle'))
        exact .inl eq
  · exact .inr (.inl ⟨_, blame, eq⟩)
  · exact .inr (.inr ⟨contexts, _, idle, eq⟩)

theorem ResolvesTo.holds (hq : a.ResolvesTo q create h)
    (answered : (a.ask q create).1 = .ok (some x)) : (a.ask q create).2.Holds h x := by
  cases hq with
  | named handle => exact ask_holds handle answered
  | @overlay object container frame space handle named unknown leads overlay =>
      refine ⟨?_, .inr ⟨space, rfl⟩⟩
      rcases ask_object handle named create with eq | ⟨e, -, eq⟩ | ⟨-, b, -, eq⟩
      · rw [eq] at answered leads overlay ⊢
        obtain ⟨container', space', hfound⟩ := lookupRegister_found unknown answered
        obtain rfl := Option.some.inj (hfound.leads.symm.trans leads)
        obtain rfl := Option.some.inj (hfound.overlay.symm.trans overlay)
        exact hfound.held
      · simp [eq] at answered
      · simp [eq] at answered

/-! ## Runs of lookups -/

theorem runAmong_holds {events : List (Event σ)} (lookups : ∀ e ∈ events, e.IsLookup)
    (ha : a.Holds h x) : (a.runAmong events).Holds h x := by
  refine runAmong_preserves (P := fun a => a.Holds h x) ?_ ha
  intro a e he ha
  cases e with
  | others table trace => exact ⟨ha.held, ha.contexts⟩ -- others never reach the maps
  | call c =>
      have hlookup : c.isAsk = true := lookups _ he
      cases c with
      | ask q create => exact (stable_holds q create h x).ask ha
      | load => cases hlookup
      | invalidate => cases hlookup

/-- **Between two loads, whoever was given a sub-space for a handle is given no other one,** by
whatever lookup that comes down to the handle, and no row is written for it. -/
theorem runAmong_serves (a : Atlas σ) {q : Query} {create : Bool} {h : Handle} {x : SubSpace}
    (resolves : a.ResolvesTo q create h) (answered : (a.ask q create).1 = .ok (some x))
    {events : List (Event σ)} (lookups : ∀ e ∈ events, e.IsLookup) (q' : Query) (create' : Bool)
    (handle : ((a.ask q create).2.runAmong events).handle? q' = some h) :
    ((a.ask q create).2.runAmong events).Serves q' create' x :=
  ask_of_holds (runAmong_holds lookups (resolves.holds answered)) handle create'

/-- The overlay of a container is found through its object; then others take the contexts away,
write rows and let the factory fail, and the overlay is asked for. -/
theorem runAmong_serves_overlay :
    let q : Query := .frame (.object .single)
    let a := (start { name := "Memory" } ({ name := "MemorySpaces" } : MemoryTable) .single).2
    let table : MemoryTable :=
      { name := "MemorySpaces", stored := ⟨[(4, .unbound "Registers")]⟩, nextKey := 9 }
    let events : List (Event MemoryTable) := [
      .call (.ask (.context .main 0) true),
      .others table { (a.ask q true).2.trace with
        contexts := .empty, factory := { plan := [some .version] } },
      .call (.ask (.space ⟨2, "ram", .memory, none⟩) true)]
    ∃ x, (a.ask q true).1 = .ok (some x) ∧
      ((a.ask q true).2.runAmong events).Serves (.space x.space) true x := by
  intro q a table events
  have answered : (a.ask q true).1 = .ok (some ⟨0, ⟨100, "Registers", .register, some "register"⟩,
      none, ⟨0, .unbound "Registers", "Memory_Registers"⟩⟩) := by
    decide +kernel
  have resolves : a.ResolvesTo q true (.space ⟨100, "Registers", .register, some "register"⟩) :=
    @ResolvesTo.overlay _ _ a q true .single .single 0 _ rfl rfl (by decide +kernel)
      (by decide +kernel) (by decide +kernel)
  refine ⟨_, answered, runAmong_serves a resolves answered ?_ _ true rfl⟩
  simp [events, Event.IsLookup, Call.isAsk]

end Atlas
end TraceAtlas
