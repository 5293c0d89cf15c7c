import TraceAtlas.Proofs.OneToOne

/-!
# Lookups that create nothing

What a lookup that creates nothing answers can be read off the slots and the surroundings: `peek`
reads it off, without counting, noting or keeping anything. The one thing `peek` does not look at
is what was found before through objects. That this makes no difference (`ask_false_fst`) is
because a registry is `Mindful`: what it kept for an object is what it would find again.
-/

namespace TraceAtlas

/-- The object is the one that the tree hands out under its identity. -/
def ObjectTree.Has (t : ObjectTree) (object : ObjectRef) : Prop :=
  (t.node? object.id).map (·.object) = some object

instance (t : ObjectTree) (object : ObjectRef) : Decidable (t.Has object) :=
  inferInstanceAs (Decidable (_ = _))

theorem ObjectTree.has_congr {t u : ObjectTree} (h : u.nodes = t.nodes) (object : ObjectRef) :
    u.Has object ↔ t.Has object := by
  unfold Has node?
  rw [h]

theorem ObjectTree.Has.eq {t : ObjectTree} {object object' : ObjectRef} (h : t.Has object)
    (h' : t.Has object') (hid : object.id = object'.id) : object = object' := by
  unfold Has at h h'
  rw [hid] at h
  exact Option.some.inj (h.symm.trans h')

/-- The object that a lookup names, if any, is one of the tree. -/
def Query.Native (q : Query) (objects : ObjectTree) : Prop := ∀ object ∈ q.object?,
    objects.Has object

instance (q : Query) (objects : ObjectTree) : Decidable (q.Native objects) :=
  inferInstanceAs (Decidable (∀ object ∈ q.object?, objects.Has object))

def Call.Native (objects : ObjectTree) : Call → Prop
  | .ask q _ => q.Native objects
  | _ => True

instance (objects : ObjectTree) : DecidablePred (Call.Native objects)
  | .ask q _ => inferInstanceAs (Decidable (q.Native objects))
  | .load => isTrue trivial
  | .invalidate => isTrue trivial

namespace Atlas

variable {σ : Type}

/-! ## Reading an answer off -/

def peekSpace (a : Atlas σ) (space : AddressSpace) : Except SpaceError (Option SubSpace) :=
  (a.check space).1.map fun _ => a.caches.at? (.memory space)

def peekContainer (a : Atlas σ) (container : ObjectRef) : Except SpaceError (Option SubSpace) :=
  match a.trace.directory.find? container.path.text with
  | none => .ok none
  | some space => a.peekSpace space

def peekRegister (a : Atlas σ) (key : RegisterKey) : Except SpaceError (Option SubSpace) :=
  if !a.settings.contexts then .ok none
  else
    match key with
    | .frame context level => .ok (a.caches.at? (.register ⟨context.key, level⟩))
    | .object object level =>
      match a.container? object level with
      | none => .ok none
      | some container => a.peekContainer container

def peekContext (a : Atlas σ) (context : ExecutionContext) (frame : UInt32) :
    Except SpaceError (Option SubSpace) :=
  if !a.settings.contexts then .ok none
  else if !ContextDirectory.owns a.trace.contexts context then .error (.notMine context.key)
  else
    match a.registerKey context frame with
    | .error e => .error e
    | .ok key => a.peekRegister key

/-- The answer to a lookup that creates nothing. -/
def peek (a : Atlas σ) : Query → Except SpaceError (Option SubSpace)
  | .request ⟨space, none, _⟩ => a.peekSpace space
  | .request ⟨_, some context, frame⟩ => a.peekContext context frame
  | .space space => a.peekSpace space
  | .context context frame => a.peekContext context frame
  | .frame (.object object) => a.peekRegister (.object object 0)
  | .frame (.level context level) => a.peekContext context level
  | .register key => a.peekRegister key

/-! ## Atlases in which the same is read -/

variable {a b : Atlas σ} {γ : Type} {f : SubSpace → γ}

/-- `b` has all that answers are read off like `a`; of sub-spaces only `f` has to agree. -/
structure Peers (f : SubSpace → γ) (a b : Atlas σ) : Prop where
  knowsContexts : b.settings.contexts = a.settings.contexts
  knowsObjects : b.settings.objects = a.settings.objects
  contexts : b.trace.contexts = a.trace.contexts
  schema : b.trace.objects.schema = a.trace.objects.schema
  nodes : b.trace.objects.nodes = a.trace.objects.nodes
  directory : b.trace.directory = { a.trace.directory with calls := b.trace.directory.calls }
  slots : ∀ p, (b.caches.at? p).map f = (a.caches.at? p).map f

theorem Peers.of_world (h : SameWorld a b)
    (slots : ∀ p, (b.caches.at? p).map f = (a.caches.at? p).map f) :
    Peers f a b :=
  ⟨by rw [h.settings], by rw [h.settings], h.contexts, h.schema, h.nodes, h.directory, slots⟩

theorem Peers.trans {c : Atlas σ} (h : Peers f a b) (h' : Peers f b c) : Peers f a c where
  knowsContexts := h'.knowsContexts.trans h.knowsContexts
  knowsObjects := h'.knowsObjects.trans h.knowsObjects
  contexts := h'.contexts.trans h.contexts
  schema := h'.schema.trans h.schema
  nodes := h'.nodes.trans h.nodes
  directory := by rw [h'.directory, h.directory]
  slots p := (h'.slots p).trans (h.slots p)

/-- Two answers agree, of sub-spaces as far as `f` goes. -/
def Alike (f : SubSpace → γ) (r s : Except SpaceError (Option SubSpace)) : Prop :=
  r.map (Option.map f) = s.map (Option.map f)

theorem Alike.eq {r s : Except SpaceError (Option SubSpace)} (h : Alike id r s) : r = s := by
  unfold Alike at h
  cases r <;> cases s <;> simp [Except.map] at h <;> rw [h]

theorem Peers.peekSpace (h : Peers f a b) (space : AddressSpace) :
    Alike f (b.peekSpace space) (a.peekSpace space) := by
  have hvouches : b.trace.directory.vouchesFor space = a.trace.directory.vouchesFor space := by
    rw [h.directory]
    rfl
  have hcheck : (b.check space).1 = (a.check space).1 := by
    unfold check
    dsimp only
    rw [hvouches]
    split
    · rfl
    · split <;> rfl
  unfold Alike Atlas.peekSpace
  rw [hcheck]
  cases (a.check space).1 with
  | error e => rfl
  | ok u => exact congrArg Except.ok (h.slots (.memory space))

theorem Peers.peekContainer (h : Peers f a b) (container : ObjectRef) :
    Alike f (b.peekContainer container) (a.peekContainer container) := by
  have hfind : b.trace.directory.find? container.path.text =
      a.trace.directory.find? container.path.text := by
    rw [h.directory]
    rfl
  unfold Atlas.peekContainer
  rw [hfind]
  split
  · rfl
  · exact h.peekSpace _

theorem Peers.peekRegister (h : Peers f a b) (key : RegisterKey) :
    Alike f (b.peekRegister key) (a.peekRegister key) := by
  unfold Atlas.peekRegister
  rw [h.knowsContexts]
  split
  · rfl
  · cases key with
    | frame context level => exact congrArg Except.ok (h.slots (.register ⟨context.key, level⟩))
    | object object level =>
        dsimp only
        rw [container?_congr h.knowsObjects h.nodes]
        split
        · rfl
        · exact h.peekContainer _

theorem Peers.peekContext (h : Peers f a b) (context : ExecutionContext) (frame : UInt32) :
    Alike f (b.peekContext context frame) (a.peekContext context frame) := by
  have hkey : b.registerKey context frame = a.registerKey context frame := by
    unfold registerKey hasSchema
    rw [h.knowsObjects, h.schema]
  unfold Atlas.peekContext
  rw [h.knowsContexts, h.contexts, hkey]
  split
  · rfl
  · split
    · rfl
    · split
      · rfl
      · exact h.peekRegister _

/-- **Peers answer alike.** -/
theorem Peers.peek (h : Peers f a b) (q : Query) : Alike f (b.peek q) (a.peek q) := by
  unfold Atlas.peek
  split
  · exact h.peekSpace _
  · exact h.peekContext _ _
  · exact h.peekSpace _
  · exact h.peekContext _ _
  · exact h.peekRegister _
  · exact h.peekContext _ _
  · exact h.peekRegister _

/-! ## What is kept for objects -/

/-- What is kept for an object of the tree is what the object leads to. -/
def Mindful (a : Atlas σ) : Prop :=
  ∀ object frame x, a.registry.byObject.get? ⟨object.id, frame⟩ = some x →
    a.trace.objects.Has object → ∃ container space, a.Found object frame container space x

/-- What an object leads to stays what it leads to while directory and slots grow. -/
theorem Found.of_grown {object container : ObjectRef} {frame : UInt32} {space : AddressSpace}
    {x : SubSpace} (h : a.Found object frame container space x)
    (leads : b.container? object frame = a.container? object frame)
    (grown : a.trace.directory.Extends b.trace.directory)
    (held : b.caches.at? (.memory space) = some x) : b.Found object frame container space x :=
  ⟨leads.trans h.leads, grown.find? _ _ h.overlay, grown.admits h.admitted, held⟩

theorem Mindful.of_grown (h : a.Mindful) (settings : b.settings = a.settings)
    (nodes : b.trace.objects.nodes = a.trace.objects.nodes)
    (grown : a.trace.directory.Extends b.trace.directory)
    (byObject : b.registry.byObject = a.registry.byObject)
    (slots : ∀ p x, a.caches.at? p = some x → b.caches.at? p = some x) : b.Mindful := by
  intro object frame x hget hhas
  rw [byObject] at hget
  rw [ObjectTree.has_congr nodes] at hhas
  obtain ⟨container, space, hfound⟩ := h object frame x hget hhas
  refine ⟨container, space, hfound.of_grown ?_ grown (slots _ x hfound.held)⟩
  exact container?_congr (by rw [settings]) nodes object frame

theorem Mindful.of_world (h : a.Mindful) (hworld : SameWorld a b)
    (byObject : b.registry.byObject = a.registry.byObject)
    (slots : ∀ p, b.caches.at? p = a.caches.at? p) : b.Mindful :=
  h.of_grown hworld.settings hworld.nodes hworld.extends_directory byObject
    fun p _ hx => (slots p).trans hx

theorem Mindful.of_idle (h : a.Mindful) (hidle : Idle a b) : b.Mindful :=
  h.of_world hidle.toSameWorld hidle.byObject fun p => by rw [hidle.caches]

theorem Mindful.of_minted {name : String} (h : a.Mindful) (hminted : Minted a name b) : b.Mindful :=
  h.of_grown hminted.idle.settings hminted.idle.nodes hminted.extends_directory
    hminted.idle.byObject
    fun p x hx => by rw [hminted.idle.caches]; exact hx

theorem mindful_of_empty (h : a.registry.byObject = .empty) : a.Mindful := by
  intro object frame x hget
  rw [h] at hget
  cases hget

theorem Mindful.remember (h : a.Mindful) {object container : ObjectRef} {frame : UInt32}
    {space : AddressSpace} {x : SubSpace} (hhas : a.trace.objects.Has object)
    (hfound : a.Found object frame container space x) : (a.remember object frame x).Mindful := by
  intro object' frame' y hget hhas'
  have hinsert : (a.remember object frame x).registry.byObject =
      a.registry.byObject.insert ⟨object.id, frame⟩ x := rfl
  rw [hinsert, SortedMap.get?_insert] at hget
  split at hget
  · next hslot =>
      -- the slot names an identity only, but in the tree that stands for one object
      cases hget
      obtain ⟨hid, rfl⟩ := ObjectSlot.mk.inj hslot
      obtain rfl : object' = object := hhas'.eq hhas hid
      exact ⟨container, space, hfound.leads, hfound.overlay, hfound.admitted, hfound.held⟩
  · obtain ⟨container', space', hfound'⟩ := h object' frame' y hget hhas'
    exact ⟨container', space', hfound'.leads, hfound'.overlay, hfound'.admitted, hfound'.held⟩

theorem Found.peekSpace_eq {object container : ObjectRef} {frame : UInt32} {space : AddressSpace}
    {x : SubSpace} (h : a.Found object frame container space x) :
    a.peekSpace space = .ok (some x) := by
  unfold peekSpace
  rw [(check_eq_ok_iff a space).mpr h.admitted, h.held]
  rfl

theorem Found.peekContainer_eq {object container : ObjectRef} {frame : UInt32}
    {space : AddressSpace}
    {x : SubSpace} (h : a.Found object frame container space x) :
    a.peekContainer container = .ok (some x) := by
  unfold peekContainer
  rw [h.overlay]
  exact h.peekSpace_eq

variable [EntryTable σ]

theorem Filled.at?_mono {t : Target} {r : Except SpaceError (Option SubSpace)} (h : Filled a t r b)
    (p : SlotKey) (x : SubSpace) (hx : a.caches.at? p = some x) : b.caches.at? p = some x := by
  cases h with
  | held held => exact hx
  | noRow empty create nothing idle => rw [idle.caches]; exact hx
  | noSpace empty create planned nothing kept caches plan count => rw [caches]; exact hx
  | made empty create planned kept caches plan count =>
      rw [caches, Caches.at?_put, if_neg, hx]
      rintro rfl
      rw [empty] at hx
      cases hx

theorem Mindful.of_filled {t : Target} {r : Except SpaceError (Option SubSpace)} (h : a.Mindful)
    (hfilled : Filled a t r b) : b.Mindful :=
  h.of_grown hfilled.sameWorld.settings hfilled.sameWorld.nodes hfilled.sameWorld.extends_directory
    hfilled.byObject_eq hfilled.at?_mono

/-! ## Lookups that create nothing answer what is read off -/

/-- What a lookup that creates nothing may change: what is kept for objects, and what is counted. -/
structure Unmoved (a b : Atlas σ) : Prop where
  world : SameWorld a b
  slots : ∀ p, b.caches.at? p = a.caches.at? p
  mindful : b.Mindful

theorem ask_false_unmoved {q : Query} (h : a.Mindful) (native : q.Native a.trace.objects) :
    Unmoved a (a.ask q false).2 := by
  refine Stable.ask (P := Unmoved a) ?_ ⟨.refl a, fun _ => rfl, h⟩
  refine ⟨⟨?_, ?_, ?_⟩, ?_⟩
  · intro b c hidle hb
    refine ⟨hb.world.trans hidle.toSameWorld, ?_, hb.mindful.of_idle hidle⟩
    intro p
    rw [hidle.caches]
    exact hb.slots p
  · intro b c name hcreate
    cases hcreate
  · intro b c t r hcreate
    cases hcreate
  · intro b object frame container space x named _ hfound hb
    refine ⟨hb.world.trans ⟨rfl, rfl, rfl, rfl, rfl⟩, hb.slots, hb.mindful.remember ?_ hfound⟩
    exact (ObjectTree.has_congr hb.world.nodes object).mpr (native object named)

theorem lookupSpace_false_fst (a : Atlas σ) (space : AddressSpace) :
    (a.lookupSpace space false).1 = a.peekSpace space := by
  have hcheck := idle_check a space
  unfold lookupSpace peekSpace
  revert hcheck
  generalize a.check space = answer
  obtain ⟨r, b⟩ := answer
  intro hcheck
  cases r with
  | error e => rfl
  | ok u =>
      show Except.ok (b.caches.at? (.memory space)) = _
      rw [hcheck.caches]
      rfl

/-- What the slot of an admitted space holds is answered for the space. -/
theorem lookupSpace_of_admits {space : AddressSpace} {x : SubSpace}
    (admits : a.trace.directory.Admits space) (held : a.caches.at? (.memory space) = some x) :
    (a.lookupSpace space false).1 = .ok (some x) := by
  rw [lookupSpace_false_fst, peekSpace, (check_eq_ok_iff a space).mpr admits, held]
  rfl

/-- A space is only answered for, be it with nothing, if it is admitted. -/
theorem admits_of_answered {space : AddressSpace} {create : Bool} {found : Option SubSpace}
    (answered : (a.lookupSpace space create).1 = .ok found) : a.trace.directory.Admits space := by
  rw [← check_eq_ok_iff]
  unfold lookupSpace at answered
  revert answered
  generalize a.check space = checked
  obtain ⟨e | u, b⟩ := checked
  · intro answered
    cases answered
  · intro _
    rfl

theorem heldByContainer_fst (a : Atlas σ) (container : ObjectRef) :
    (a.heldByContainer container).1 = a.peekContainer container := by
  have hidle := idle_findSpace a container.path.text
  unfold heldByContainer peekContainer
  rw [← findSpace_fst]
  revert hidle
  generalize a.findSpace container.path.text = answer
  obtain ⟨found, b⟩ := answer
  intro hidle
  cases found with
  | none => rfl
  | some space =>
      have hpeers : Peers id a b := .of_world hidle.toSameWorld fun p => by rw [hidle.caches]
      show (b.lookupSpace space false).1 = a.peekSpace space
      rw [← (hpeers.peekSpace space).eq]
      exact lookupSpace_false_fst b space

theorem throughObject_false_fst (h : a.Mindful) {object : ObjectRef}
    (hhas : a.trace.objects.Has object) (frame : UInt32) :
    (a.throughObject object frame false).1 =
      match a.container? object frame with
      | none => .ok none
      | some container => a.peekContainer container := by
  unfold throughObject
  cases hhit : a.objectHit object frame with
  | some x =>
      -- what is kept is what would be found
      obtain ⟨container, space, hfound⟩ := h object frame x hhit hhas
      rw [hfound.leads]
      exact hfound.peekContainer_eq.symm
  | none =>
      have hidle := idle_container a object frame
      have hfst := container_fst a object frame
      rw [← hfst]
      revert hidle
      generalize a.container object frame = answer
      obtain ⟨found, b⟩ := answer
      intro hidle
      cases found with
      | none => rfl
      | some container =>
          have hpeers : Peers id a b := .of_world hidle.toSameWorld fun p => by rw [hidle.caches]
          have hheld := heldByContainer_fst b container
          rw [(hpeers.peekContainer container).eq] at hheld
          show _ = a.peekContainer container
          rw [← hheld]
          unfold containerSpace
          simp only [Bool.false_eq_true, if_false]
          generalize b.heldByContainer container = answer
          obtain ⟨r, c⟩ := answer
          rcases r with e | _ | x <;> rfl

theorem lookupRegister_false_fst (h : a.Mindful) {key : RegisterKey}
    (hhas : ∀ object level, key = .object object level → a.trace.objects.Has object) :
    (a.lookupRegister key false).1 = a.peekRegister key := by
  unfold lookupRegister peekRegister
  split
  · rfl
  · cases key with
    | frame context level => rfl
    | object object level => exact throughObject_false_fst h (hhas object level rfl) level

theorem lookupContext_false_fst (h : a.Mindful) {context : ExecutionContext}
    (hhas : ∀ object ∈ context.object, a.trace.objects.Has object) (frame : UInt32) :
    (a.lookupContext context frame false).1 = a.peekContext context frame := by
  unfold lookupContext peekContext
  split
  · rfl
  · split
    · rfl
    · cases hkey : a.registerKey context frame with
      | error e => rfl
      | ok key =>
          apply lookupRegister_false_fst h
          rintro object level rfl
          exact hhas object (registerKey_eq_object hkey)

/-- **A lookup that creates nothing answers what is read off.** -/
theorem ask_false_fst {q : Query} (h : a.Mindful) (native : q.Native a.trace.objects) :
    (a.ask q false).1 = a.peek q := by
  cases q with
  | request request =>
      obtain ⟨space, context, frame⟩ := request
      cases context with
      | none => exact lookupSpace_false_fst a space
      | some context => exact lookupContext_false_fst h native frame
  | space space => exact lookupSpace_false_fst a space
  | context context frame => exact lookupContext_false_fst h native frame
  | frame frame =>
      cases frame with
      | object object =>
          apply lookupRegister_false_fst h
          intro object' level hkey
          cases hkey
          exact native object rfl
      | level context level => exact lookupContext_false_fst h native level
  | register key =>
      apply lookupRegister_false_fst h
      rintro object level rfl
      exact native object rfl

end Atlas
end TraceAtlas
