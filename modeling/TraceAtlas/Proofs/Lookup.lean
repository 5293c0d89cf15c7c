import TraceAtlas.Atlas.Lookup
import TraceAtlas.Proofs.Fill

/-!
# What a lookup does to an atlas

Whatever a lookup names, four kinds of steps are all it is made of: idle ones, the minting of an
overlay, the filling of one slot, and the keeping of what was found through an object. `Stable`
says of a property that each of these steps preserves it, and `Stable.ask` that then every lookup
does.

Overlays are minted and slots filled only by a lookup that may create. A slot is filled only for a
target that the lookup `Names`, and an answer is kept for an object only if it is the one `Found`
for it. Invariants that a careless caller could break rest on these two.
-/

namespace TraceAtlas

/-! ## Lookups as values -/

/-- What a lookup asks for, one case for each way to ask. -/
inductive Query where
  | request (request : SpaceRequest)
  | space (space : AddressSpace)
  | context (context : ExecutionContext) (frame : UInt32)
  | frame (frame : StackFrame)
  | register (key : RegisterKey)
deriving DecidableEq, Repr

namespace Query

def space? : Query → Option AddressSpace
  | .request ⟨s, none, _⟩ => some s
  | .space s => some s
  | _ => none

/-- The context that a lookup names without having it checked. -/
def unchecked? : Query → Option ExecutionContext
  | .register (.frame c _) => some c
  | _ => none

/-- The object that a lookup names, itself or through a context. -/
def object? : Query → Option ObjectRef
  | .request ⟨_, some c, _⟩ => c.object
  | .context c _ => c.object
  | .frame (.object o) => some o
  | .frame (.level c _) => c.object
  | .register (.object o _) => some o
  | _ => none

end Query

def Atlas.ask {σ : Type} [EntryTable σ] (a : Atlas σ) (q : Query) (create : Bool) :
    Answer σ (Option SubSpace) :=
  match q with
  | .request request => a.lookup request create
  | .space space => a.lookupSpace space create
  | .context context frame => a.lookupContext context frame create
  | .frame frame => a.lookupFrame frame create
  | .register key => a.lookupRegister key create

/-! ## Containers -/

namespace ObjectTree

theorem search_congr {t u : ObjectTree} (h : u.nodes = t.nodes) (frame : UInt32) (rounds : Nat)
    (level : List ObjectNode) : u.search frame rounds level = t.search frame rounds level := by
  have hbelow : u.below frame = t.below frame := by
    funext level
    simp only [below, children, h]
  induction rounds generalizing level with
  | zero => simp only [search, hbelow]
  | succ rounds ih => simp only [search, hbelow, ih]

theorem isContainer_congr {t u : ObjectTree} (h : u.nodes = t.nodes) (object : ObjectRef) :
    u.isContainer object = t.isContainer object := by
  simp only [isContainer, node?, h]

theorem nearestContainer_congr {t u : ObjectTree} (h : u.nodes = t.nodes) (object : ObjectRef)
    (frame : UInt32) : u.nearestContainer object frame = t.nearestContainer object frame := by
  simp only [nearestContainer, node?, h, search_congr h]

end ObjectTree

namespace Atlas

variable {σ : Type}

def container? (a : Atlas σ) (object : ObjectRef) (frame : UInt32) : Option ObjectRef :=
  if !a.settings.objects then none
  else if a.trace.objects.isContainer object then some object
  else a.trace.objects.nearestContainer object frame

theorem container_fst (a : Atlas σ) (object : ObjectRef) (frame : UInt32) :
    (a.container object frame).1 = a.container? object frame := by
  unfold container container?
  dsimp only
  split
  · rfl
  · split <;> rfl

theorem container?_congr {a b : Atlas σ} (settings : b.settings.objects = a.settings.objects)
    (nodes : b.trace.objects.nodes = a.trace.objects.nodes) (object : ObjectRef) (frame : UInt32) :
    b.container? object frame = a.container? object frame := by
  unfold container?
  rw [settings, ObjectTree.isContainer_congr nodes, ObjectTree.nearestContainer_congr nodes]

theorem SameWorld.container?_eq {a b : Atlas σ} (h : SameWorld a b) (object : ObjectRef)
    (frame : UInt32) : b.container? object frame = a.container? object frame :=
  container?_congr (by rw [h.settings]) h.nodes object frame

/-! ## Minting an overlay -/

end Atlas

/-- The directory with a new overlay of `base`. -/
def Directory.mint (d : Directory) (name : String) (base : AddressSpace) : Directory :=
  { d.add (.overlay d.nextId name base) with nextId := d.nextId + 1, minted := d.minted + 1 }

theorem Directory.find?_mint (d : Directory) (name : String) (base : AddressSpace) (n : String) :
    (d.mint name base).find? n =
      if n = name then some (.overlay d.nextId name base) else d.find? n := by
  show (d.spaces.insert name (.overlay d.nextId name base)).get? n = _
  rw [SortedMap.get?_insert]
  rfl

/-- A new overlay takes no name from a space that is there. -/
theorem Directory.extends_mint {d : Directory} {name : String} (h : d.find? name = none)
    (base : AddressSpace) : d.Extends (d.mint name base) := by
  refine ⟨?_, rfl⟩
  intro n space hn
  rw [find?_mint, if_neg, hn]
  rintro rfl
  rw [h] at hn
  cases hn

namespace Atlas

variable {σ : Type}

/-- `b` is `a` with a new overlay of the register space. -/
structure Minted (a : Atlas σ) (name : String) (b : Atlas σ) : Prop where
  fresh : a.trace.directory.find? name = none
  idle : Idle { a with trace := { a.trace with
    directory := a.trace.directory.mint name a.settings.language.registerSpace } } b

/-- Asking for the overlay of a name can answer `r` and leave `b`. -/
inductive Overlaid (a : Atlas σ) (name : String) :
    Except SpaceError (Option AddressSpace) → Atlas σ → Prop
  | refused {r : Except SpaceError (Option AddressSpace)} {b : Atlas σ}
      (nothing : ∀ space, r ≠ .ok (some space)) (idle : Idle a b) : Overlaid a name r b
  | found {b : Atlas σ} {space : AddressSpace} (found : b.trace.directory.find? name = some space)
      (idle : Idle a b) : Overlaid a name (.ok (some space)) b
  | minted {b : Atlas σ} {space : AddressSpace} (found : b.trace.directory.find? name = some space)
      (minted : Minted a name b) : Overlaid a name (.ok (some space)) b

theorem overlay_spec (a : Atlas σ) (name : String) :
    Overlaid a name (a.overlay name).1 (a.overlay name).2 := by
  unfold overlay Directory.overlay
  by_cases houtdated : a.trace.directory.overlaysOutdated = true
  · simp only [houtdated, if_true]
    exact .refused (by simp [settle, TableError.isVersion])
      ⟨⟨⟨rfl, rfl, rfl, rfl, rfl⟩, rfl, rfl, rfl⟩, rfl, rfl⟩
  · by_cases hdown : a.trace.directory.overlaysDown = true
    · simp only [houtdated, hdown, if_true]
      exact .refused (by simp [settle, TableError.isVersion])
        ⟨⟨⟨rfl, rfl, rfl, rfl, rfl⟩, rfl, rfl, rfl⟩, rfl, rfl⟩
    · simp only [houtdated, hdown]
      cases hfind : a.trace.directory.find? name with
      | some space =>
          exact .found hfind ⟨⟨⟨rfl, rfl, rfl, rfl, rfl⟩, rfl, rfl, rfl⟩, rfl, rfl⟩
      | none =>
          refine .minted ?_ ⟨hfind, ⟨⟨⟨rfl, rfl, rfl, rfl, rfl⟩, rfl, rfl, rfl⟩, rfl, rfl⟩⟩
          show (a.trace.directory.spaces.insert name _).get? name = _
          exact SortedMap.get?_insert_self _ _ _

/-! ## The way to a register bank -/

theorem registerKey_eq_frame {a : Atlas σ} {context context' : ExecutionContext}
    {frame frame' : UInt32}
    (h : a.registerKey context frame = .ok (.frame context' frame')) : context' = context := by
  unfold registerKey at h
  split at h
  · split at h <;> cases h
  · cases h
    rfl

theorem registerKey_eq_object {a : Atlas σ} {context : ExecutionContext} {object : ObjectRef}
    {frame level : UInt32}
    (h : a.registerKey context frame = .ok (.object object level)) :
    context.object = some object := by
  unfold registerKey at h
  split at h
  · split at h
    · next hobject =>
        cases h
        exact hobject
    · cases h
  · cases h

/-! ## The steps of a lookup -/

variable [EntryTable σ] {a b : Atlas σ}

theorem Filled.sameWorld {t : Target} {r : Except SpaceError (Option SubSpace)}
    (h : Filled a t r b) : SameWorld a b := by
  cases h with
  | held held => exact .refl a
  | noRow empty create nothing idle => exact .of_table idle.toSameWorld
  | noSpace empty create planned nothing kept caches plan count => exact .of_table kept.toSameWorld
  | made empty create planned kept caches plan count => exact .of_table kept.toSameWorld

theorem Filled.at?_eq {t : Target} {x : SubSpace} (h : Filled a t (.ok (some x)) b) :
    b.caches.at? t.slot = some x := by
  cases h with
  | held held => exact held
  | noRow empty create nothing idle => exact absurd rfl (nothing x)
  | noSpace empty create planned nothing kept caches plan count => exact absurd rfl (nothing x)
  | made empty create planned kept caches plan count =>
      rw [caches, Caches.at?_put, if_pos rfl]

/-- The targets whose slots a lookup fills. -/
inductive Names (a : Atlas σ) (q : Query) : Target → Prop
  | space {space : AddressSpace} (named : q.space? = some space)
      (admitted : a.trace.directory.Admits space) : Names a q (.ofSpace space)
  /-- The overlay of a container, found under the container's path. -/
  | container {name : String} {space : AddressSpace}
      (found : a.trace.directory.find? name = some space)
      (admitted : a.trace.directory.Admits space) : Names a q (.ofSpace space)
  /-- A register bank of a context that is known, unless the lookup names it unchecked. -/
  | bank {context : ExecutionContext} {frame : UInt32} (contexts : a.settings.contexts = true)
      (owned : ContextDirectory.owns a.trace.contexts context = true ∨
        q.unchecked? = some context) :
      Names a q (.ofBank a.settings.language.registerSpace context frame)

/-- What an object leads to, for a frame: the sub-space in the memory slot of its container. -/
structure Found (a : Atlas σ) (object : ObjectRef) (frame : UInt32) (container : ObjectRef)
    (space : AddressSpace) (x : SubSpace) : Prop where
  leads : a.container? object frame = some container
  overlay : a.trace.directory.find? container.path.text = some space
  admitted : a.trace.directory.Admits space
  held : a.caches.at? (.memory space) = some x

/-- The steps on the way to a slot preserve `P`. -/
structure Steady (q : Query) (create : Bool) (P : Atlas σ → Prop) : Prop where
  idle : ∀ {a b}, Idle a b → P a → P b
  mint : ∀ {a b name}, create = true → Minted a name b → P a → P b
  fill : ∀ {a b t r}, create = true → a.Names q t → Filled a t r b → P a → P b

/-- All steps of a lookup preserve `P`. -/
structure Stable (q : Query) (create : Bool) (P : Atlas σ → Prop) : Prop
    extends Steady q create P where
  /-- An answer is kept for an object and a frame for which nothing was kept before. -/
  remember : ∀ {a object frame container space x}, q.object? = some object →
    a.objectHit object frame = none → a.Found object frame container space x → P a →
      P (a.remember object frame x)

variable {q : Query} {create : Bool} {P : Atlas σ → Prop}

theorem Steady.fillSlot (h : Steady q true P) {t : Target} (names : a.Names q t) (ha : P a) :
    P (a.fillSlot t).2 := h.fill rfl names (fillSlot_spec a t) ha

/-- A lookup of a space is made of idle steps and, if it may create, of filling the space's slot. -/
theorem lookupSpace_preserves {space : AddressSpace} (idle : ∀ {a b}, Idle a b → P a → P b)
    (fill : ∀ {a b r}, create = true → a.trace.directory.Admits space →
      Filled a (.ofSpace space) r b → P a → P b)
    (ha : P a) : P (a.lookupSpace space create).2 := by
  have hcheck := idle_check a space
  have hok := check_eq_ok_iff a space
  unfold Atlas.lookupSpace
  revert hcheck hok
  generalize a.check space = answer
  obtain ⟨r, b⟩ := answer
  intro hcheck hok
  have hb : P b := idle hcheck ha
  cases r with
  | error e => exact hb
  | ok u =>
      cases create with
      | false => exact hb
      | true =>
          have hadmits : b.trace.directory.Admits space :=
            hcheck.extends_directory.admits (hok.mp rfl)
          have hfill := fill rfl hadmits (fillSlot_spec b (.ofSpace space)) hb
          exact idle (idle_report _) hfill

theorem Steady.lookupSpace (h : Steady q create P) {space : AddressSpace}
    (named : q.space? = some space) (ha : P a) : P (a.lookupSpace space create).2 :=
  lookupSpace_preserves h.idle
    (fun hcreate hadmits hfilled hb => h.fill hcreate (.space named hadmits) hfilled hb) ha

theorem Steady.bank (h : Steady q create P) {context : ExecutionContext} {frame : UInt32}
    (contexts : a.settings.contexts = true)
    (owned : ContextDirectory.owns a.trace.contexts context = true ∨ q.unchecked? = some context)
    (ha : P a) : P (a.bank context frame create).2 := by
  cases create with
  | false => exact ha
  | true => exact h.fillSlot (.bank contexts owned) ha

/-- The slot of a container's overlay is filled by idle steps, the minting of the overlay and the
filling of the slot, and what it then holds is what the object leads to. -/
theorem filledForContainer_preserves {object container : ObjectRef} {frame : UInt32}
    (leads : a.container? object frame = some container)
    (idle : ∀ {a b}, Idle a b → P a → P b)
    (mint : ∀ {a b name}, Minted a name b → P a → P b)
    (fill : ∀ {a b name space r}, a.trace.directory.find? name = some space →
      a.trace.directory.Admits space → Filled a (.ofSpace space) r b → P a → P b)
    (ha : P a) :
    P (a.filledForContainer container).2 ∧
      ∀ x, (a.filledForContainer container).1 = .ok (some x) →
        ∃ space, (a.filledForContainer container).2.Found object frame container space x := by
  have hoverlay := overlay_spec a container.path.text
  unfold Atlas.filledForContainer
  revert hoverlay
  generalize a.overlay container.path.text = answer
  obtain ⟨r, b⟩ := answer
  intro hoverlay
  -- whether the overlay was there or is new, `b` has it and leads on as `a` does
  have hb : P b := by
    cases hoverlay with
    | refused nothing hidle => exact idle hidle ha
    | found found hidle => exact idle hidle ha
    | minted found minted => exact mint minted ha
  have hleads : b.container? object frame = some container := by
    cases hoverlay with
    | refused nothing idle => exact (idle.container?_eq object frame).trans leads
    | found found idle => exact (idle.container?_eq object frame).trans leads
    | minted found minted => exact (minted.idle.container?_eq object frame).trans leads
  have hfind : ∀ space, r = .ok (some space) →
      b.trace.directory.find? container.path.text = some space := by
    rintro space rfl
    cases hoverlay with
    | refused nothing idle => exact absurd rfl (nothing space)
    | found found idle => exact found
    | minted found minted => exact found
  rcases r with e | _ | space
  · exact ⟨hb, by simp⟩
  · exact ⟨hb, by simp⟩
  · have hcheck := idle_check b space
    have hok := check_eq_ok_iff b space
    dsimp only
    revert hcheck hok
    generalize b.check space = answer
    obtain ⟨r, c⟩ := answer
    intro hcheck hok
    have hc : P c := idle hcheck hb
    cases r with
    | error e => exact ⟨hc, by simp⟩
    | ok u =>
        have hadmits : c.trace.directory.Admits space :=
          hcheck.extends_directory.admits (hok.mp rfl)
        have hfound : c.trace.directory.find? container.path.text = some space :=
          (hcheck.find?_eq _).trans (hfind space rfl)
        have hspec := fillSlot_spec c (.ofSpace space)
        show P (c.memoryOrCreate space).2 ∧ ∀ x, (c.memoryOrCreate space).1 = .ok (some x) →
          ∃ s, (c.memoryOrCreate space).2.Found object frame container s x
        rw [memoryOrCreate_eq_fillSlot]
        refine ⟨fill hfound hadmits hspec hc, ?_⟩
        intro x hx
        have hworld := hspec.sameWorld
        rw [hx] at hspec
        refine ⟨space, ?_, ?_, hworld.extends_directory.admits hadmits, hspec.at?_eq⟩
        · exact (hworld.container?_eq object frame).trans
            ((hcheck.container?_eq object frame).trans hleads)
        · exact (hworld.find?_eq _).trans hfound

/-- The container's slot is filled, and what it then holds is what the object leads to. -/
theorem Steady.filledForContainer (h : Steady q true P) {object container : ObjectRef}
    {frame : UInt32}
    (leads : a.container? object frame = some container) (ha : P a) :
    P (a.filledForContainer container).2 ∧
      ∀ x, (a.filledForContainer container).1 = .ok (some x) →
        ∃ space, (a.filledForContainer container).2.Found object frame container space x :=
  filledForContainer_preserves leads h.idle (h.mint rfl)
    (fun hfound hadmits hfilled => h.fill rfl (.container hfound hadmits) hfilled) ha

theorem Steady.heldByContainer (h : Steady q create P) {object container : ObjectRef}
    {frame : UInt32}
    (leads : a.container? object frame = some container) (ha : P a) :
    P (a.heldByContainer container).2 ∧
      ∀ x, (a.heldByContainer container).1 = .ok (some x) →
        ∃ space, (a.heldByContainer container).2.Found object frame container space x := by
  have hidle := idle_findSpace a container.path.text
  have hfind := findSpace_fst a container.path.text
  unfold Atlas.heldByContainer
  revert hidle hfind
  generalize a.findSpace container.path.text = answer
  obtain ⟨found, b⟩ := answer
  rintro hidle hfind
  have hb : P b := h.idle hidle ha
  cases found with
  | none => exact ⟨hb, by simp⟩
  | some space =>
      have hcheck := idle_check b space
      have hok := check_eq_ok_iff b space
      dsimp only
      revert hcheck hok
      generalize b.check space = answer
      obtain ⟨r, c⟩ := answer
      intro hcheck hok
      have hc : P c := h.idle hcheck hb
      cases r with
      | error e => exact ⟨hc, by simp⟩
      | ok u =>
          refine ⟨hc, ?_⟩
          intro x hx
          refine ⟨space, ?_, ?_, hcheck.extends_directory.admits (hok.mp rfl), ?_⟩
          · exact (hcheck.container?_eq object frame).trans
              ((hidle.container?_eq object frame).trans leads)
          · exact (hcheck.find?_eq _).trans ((hidle.find?_eq _).trans hfind.symm)
          · simpa [Caches.at?] using hx

theorem Steady.containerSpace (h : Steady q create P) {object container : ObjectRef}
    {frame : UInt32}
    (leads : a.container? object frame = some container) (ha : P a) :
    P (a.containerSpace container create).2 ∧
      ∀ x, (a.containerSpace container create).1 = .ok (some x) →
        ∃ space, (a.containerSpace container create).2.Found object frame container space x := by
  cases create with
  | false => exact h.heldByContainer leads ha
  | true => exact h.filledForContainer leads ha

theorem Filled.byObject_eq {t : Target} {r : Except SpaceError (Option SubSpace)}
    (h : Filled a t r b) :
    b.registry.byObject = a.registry.byObject := by
  cases h with
  | held held => rfl
  | noRow empty create nothing idle => exact idle.byObject
  | noSpace empty create planned nothing kept caches plan count => exact kept.byObject
  | made empty create planned kept caches plan count => exact kept.byObject

theorem steady_byObject (q : Query) (create : Bool) (kept : SortedMap ObjectSlot SubSpace) :
    Steady q create fun a : Atlas σ => a.registry.byObject = kept where
  idle hidle ha := hidle.byObject.trans ha
  mint _ hminted ha := hminted.idle.byObject.trans ha
  fill _ _ hfilled ha := hfilled.byObject_eq.trans ha

/-- A lookup through an object answers what was kept for it, or what its container's slot then
holds. -/
theorem Stable.throughObject (h : Stable q create P) {object : ObjectRef}
    (named : q.object? = some object) (frame : UInt32) (ha : P a) :
    P (a.throughObject object frame create).2 ∧
      ∀ x, (a.throughObject object frame create).1 = .ok (some x) →
        a.objectHit object frame = some x ∨ ∃ container space,
          (a.throughObject object frame create).2.Found object frame container space x := by
  unfold Atlas.throughObject
  split
  · next hhit =>
      refine ⟨ha, ?_⟩
      intro x hx
      cases hx
      exact .inl hhit
  · next hhit =>
      have hidle := idle_container a object frame
      have hleads := container_fst a object frame
      revert hidle hleads
      generalize a.container object frame = answer
      obtain ⟨found, b⟩ := answer
      intro hidle hleads
      have hb : P b := h.idle hidle ha
      cases found with
      | none => exact ⟨hb, by simp⟩
      | some container =>
          have hleads : b.container? object frame = some container :=
            (hidle.container?_eq object frame).trans hleads.symm
          have hspace := h.containerSpace hleads hb
          -- nothing is kept for an object on the way to the slot of its container
          have hkept := ((steady_byObject q create _).containerSpace hleads hidle.byObject).1
          dsimp only
          revert hspace hkept
          generalize b.containerSpace container create = answer
          obtain ⟨r, c⟩ := answer
          rintro ⟨hc, hfound⟩ hkept
          rcases r with e | _ | x
          · exact ⟨hc, by simp⟩
          · exact ⟨hc, by simp⟩
          · obtain ⟨space, hfound⟩ := hfound x rfl
            have hfresh : c.objectHit object frame = none := by
              unfold objectHit
              rw [show c.registry.byObject = a.registry.byObject from hkept]
              exact hhit
            refine ⟨h.remember named hfresh hfound hc, ?_⟩
            rintro y hy
            cases hy
            exact .inr ⟨container, space, hfound.leads, hfound.overlay, hfound.admitted,
              hfound.held⟩

theorem Stable.lookupRegister (h : Stable q create P) {key : RegisterKey} (ha : P a)
    (owned : ∀ context frame, key = .frame context frame →
      ContextDirectory.owns a.trace.contexts context = true ∨ q.unchecked? = some context)
    (named : ∀ object frame, key = .object object frame → q.object? = some object) :
    P (a.lookupRegister key create).2 := by
  unfold Atlas.lookupRegister
  split
  · exact h.idle (idle_note a _) ha
  · next hcontexts =>
      have hcontexts : a.settings.contexts = true := by simpa using hcontexts
      cases key with
      | frame context frame =>
          exact h.idle (idle_report _) (h.bank hcontexts (owned context frame rfl) ha)
      | object object frame =>
          exact h.idle (idle_report _) (h.throughObject (named object frame rfl) frame ha).1

theorem Stable.lookupContext (h : Stable q create P) {context : ExecutionContext}
    (named : ∀ object, context.object = some object → q.object? = some object) (frame : UInt32)
    (ha : P a) : P (a.lookupContext context frame create).2 := by
  unfold Atlas.lookupContext
  split
  · exact h.idle (idle_note a _) ha
  · split
    · exact ha
    · next howns =>
        have howns : ContextDirectory.owns a.trace.contexts context = true := by simpa using howns
        cases hkey : a.registerKey context frame with
        | error e => exact ha
        | ok key =>
            apply h.lookupRegister ha
            · rintro context' frame' rfl
              rw [registerKey_eq_frame hkey]
              exact .inl howns
            · rintro object level rfl
              exact named object (registerKey_eq_object hkey)

/-- **What the steps of a lookup preserve, the lookup preserves.** -/
theorem Stable.ask (h : Stable q create P) (ha : P a) : P (a.ask q create).2 := by
  cases q with
  | request request =>
      obtain ⟨space, context, frame⟩ := request
      cases context with
      | none => exact h.lookupSpace rfl ha
      | some context => exact h.lookupContext (fun _ hobject => hobject) frame ha
  | space space => exact h.lookupSpace rfl ha
  | context context frame => exact h.lookupContext (fun _ hobject => hobject) frame ha
  | frame frame =>
      cases frame with
      | object object =>
          apply h.lookupRegister ha
          · intro context level hkey
            cases hkey
          · intro object' level hkey
            cases hkey
            rfl
      | level context level => exact h.lookupContext (fun _ hobject => hobject) level ha
  | register key =>
      apply h.lookupRegister ha
      · rintro context frame rfl
        exact .inr rfl
      · rintro object level rfl
        rfl

end Atlas
end TraceAtlas
