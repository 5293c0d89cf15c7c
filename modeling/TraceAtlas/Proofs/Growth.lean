import TraceAtlas.Proofs.Sections

/-!
# What only grows

While lookups create, spaces are added to the directory and slots are filled, and nothing is taken
back. So there is one way to a slot for each lookup (`Atlas.way`), the slot that it comes down to
(`slotFor?`) stays the same once there is one, and so does the slot that a row stands for (`home?`).
`Grown` says of two atlases that the second has come about like this.
-/

namespace TraceAtlas

/-! ## Overlays that are new -/

/-- `e` is `d` with one new space under each of `names`, minted as an overlay. -/
structure Directory.Minting (d e : Directory) (names : List String) : Prop where
  distinct : names.Nodup
  fresh : ∀ name ∈ names, d.find? name = none
  filed : ∀ name ∈ names, (e.find? name).isSome = true
  others : ∀ name, name ∉ names → e.find? name = d.find? name
  count : e.minted = d.minted + names.length

namespace Directory.Minting

variable {d e f : Directory}

theorem of_find?_eq (h : ∀ name, e.find? name = d.find? name) (count : e.minted = d.minted) :
    d.Minting e [] := by
  refine ⟨.nil, ?_, ?_, fun name _ => h name, count⟩ <;> simp

theorem trans {names names' : List String} (h : d.Minting e names) (h' : e.Minting f names') :
    d.Minting f (names ++ names') := by
  -- a name that is new to `e` is not one of those that came before
  have hdisjoint : ∀ name ∈ names, name ∉ names' := by
    intro name hname hname'
    have hfiled := h.filed name hname
    rw [h'.fresh name hname'] at hfiled
    cases hfiled
  refine ⟨?_, ?_, ?_, ?_, ?_⟩
  · rw [List.nodup_append]
    refine ⟨h.distinct, h'.distinct, ?_⟩
    rintro name hname name' hname' rfl
    exact hdisjoint name hname hname'
  · intro name hname
    rcases List.mem_append.mp hname with hname | hname
    · exact h.fresh name hname
    · rw [← h.others name fun hmem => hdisjoint name hmem hname]
      exact h'.fresh name hname
  · intro name hname
    rcases List.mem_append.mp hname with hname | hname
    · rw [h'.others name (hdisjoint name hname)]
      exact h.filed name hname
    · exact h'.filed name hname
  · intro name hname
    rw [List.mem_append, not_or] at hname
    rw [h'.others name hname.2, h.others name hname.1]
  · rw [h'.count, h.count, List.length_append, Nat.add_assoc]

end Directory.Minting

theorem Directory.minting_mint {d : Directory} {name : String} (fresh : d.find? name = none)
    (base : AddressSpace) : d.Minting (d.mint name base) [name] where
  distinct := List.nodup_singleton name
  fresh n hn := by
    rw [List.mem_singleton.mp hn]
    exact fresh
  filed n hn := by
    rw [find?_mint, if_pos (List.mem_singleton.mp hn)]
    rfl
  others n hn := by
    rw [find?_mint, if_neg fun heq => hn (List.mem_singleton.mpr heq)]
  count := rfl

namespace Atlas

variable {σ : Type} {a b c : Atlas σ} {q : Query}

theorem SameWorld.minting (h : SameWorld a b) : a.trace.directory.Minting b.trace.directory [] := by
  refine .of_find?_eq h.find?_eq ?_
  rw [h.directory]

/-! ## Slots that lookups come down to -/

def contextWay (a : Atlas σ) (context : ExecutionContext) (frame : UInt32) :
    Except SpaceError (Option Way) :=
  if !a.settings.contexts then .ok none
  else if !ContextDirectory.owns a.trace.contexts context then .error (.notMine context.key)
  else (a.registerKey context frame).map fun key => some key.way

def registerWay (a : Atlas σ) (key : RegisterKey) : Option Way :=
  if !a.settings.contexts then none else some key.way

/-- The way that a lookup takes, before anything is said of the space. -/
def way (a : Atlas σ) : Query → Except SpaceError (Option Way)
  | .request ⟨space, none, _⟩ => .ok (some (.space space))
  | .request ⟨_, some context, frame⟩ => a.contextWay context frame
  | .space space => .ok (some (.space space))
  | .context context frame => a.contextWay context frame
  | .frame (.object object) => .ok (a.registerWay (.object object 0))
  | .frame (.level context level) => a.contextWay context level
  | .register key => .ok (a.registerWay key)

/-- The slot at the end of a way; that of an object is the one of the overlay of its container. -/
def slotOn? (a : Atlas σ) : Way → Option SlotKey
  | .space space => some (.memory space)
  | .bank context frame => some (.register ⟨context.key, frame⟩)
  | .object object frame => (a.container? object frame).bind fun container =>
    (a.trace.directory.find? container.path.text).map .memory

/-- The slot that a lookup comes down to. -/
def slotFor? (a : Atlas σ) (q : Query) : Option SlotKey :=
  match a.way q with
  | .ok (some way) => a.slotOn? way
  | _ => none

theorem slotFor?_of_way {way : Way} (h : a.way q = .ok (some way)) :
    a.slotFor? q = a.slotOn? way := by
  unfold slotFor?
  rw [h]

/-! ## Ways and what they start from -/

/-- What a lookup names, and what is known of a context that it names, for each way. -/
inductive Routes (a : Atlas σ) (q : Query) : Way → Prop
  | space {space : AddressSpace} (named : q.space? = some space) : Routes a q (.space space)
  | bank {context : ExecutionContext} {frame : UInt32} (contexts : a.settings.contexts = true)
      (owned : ContextDirectory.owns a.trace.contexts context = true ∨
        q.unchecked? = some context) : Routes a q (.bank context frame)
  | object {object : ObjectRef} {frame : UInt32} (named : q.object? = some object) :
      Routes a q (.object object frame)

theorem routes_of_registerWay (key : RegisterKey) {way : Way}
    (h : a.registerWay key = some way)
    (owned : ∀ context frame, key = .frame context frame →
      ContextDirectory.owns a.trace.contexts context = true ∨ q.unchecked? = some context)
    (named : ∀ object frame, key = .object object frame → q.object? = some object) :
    a.Routes q way := by
  unfold registerWay at h
  split at h
  · cases h
  · next hcontexts =>
      cases h
      cases key with
      | frame context frame => exact .bank (by simpa using hcontexts) (owned context frame rfl)
      | object object frame => exact .object (named object frame rfl)

theorem routes_of_contextWay {context : ExecutionContext} {frame : UInt32} {way : Way}
    (h : a.contextWay context frame = .ok (some way)) (named : q.object? = context.object) :
    a.Routes q way := by
  unfold contextWay at h
  split at h
  · cases h
  · next hcontexts =>
      split at h
      · cases h
      · next howns =>
          cases hkey : a.registerKey context frame with
          | error e =>
              rw [hkey] at h
              cases h
          | ok key =>
              rw [hkey] at h
              apply routes_of_registerWay key
              · rw [registerWay, if_neg hcontexts]
                exact Except.ok.inj h
              · rintro context' level rfl
                rw [registerKey_eq_frame hkey]
                exact .inl (by simpa using howns)
              · rintro object level rfl
                exact named.trans (registerKey_eq_object hkey)

theorem routes_of_way {way : Way} (h : a.way q = .ok (some way)) : a.Routes q way := by
  cases q with
  | request request =>
      obtain ⟨space, context, frame⟩ := request
      cases context with
      | none => cases h; exact .space rfl
      | some context => exact routes_of_contextWay h rfl
  | space space => cases h; exact .space rfl
  | context context frame => exact routes_of_contextWay h rfl
  | frame frame =>
      cases frame with
      | object object =>
          apply routes_of_registerWay (.object object 0) (Except.ok.inj h)
          · rintro _ _ ⟨⟩
          · rintro _ _ ⟨⟩
            rfl
      | level context level => exact routes_of_contextWay h rfl
  | register key =>
      apply routes_of_registerWay key (Except.ok.inj h)
      · rintro context frame rfl
        exact .inr rfl
      · rintro object frame rfl
        rfl

/-! ## Atlases that have grown -/

/-- `b` is `a` with more spaces in the directory and more slots filled. -/
structure Grown (a b : Atlas σ) : Prop where
  settings : b.settings = a.settings
  contexts : b.trace.contexts = a.trace.contexts
  schema : b.trace.objects.schema = a.trace.objects.schema
  nodes : b.trace.objects.nodes = a.trace.objects.nodes
  directory : a.trace.directory.Extends b.trace.directory
  slots : ∀ p x, a.caches.at? p = some x → b.caches.at? p = some x

namespace Grown

theorem refl (a : Atlas σ) : Grown a a := ⟨rfl, rfl, rfl, rfl, .refl _, fun _ _ h => h⟩

theorem trans (h : Grown a b) (h' : Grown b c) : Grown a c where
  settings := h'.settings.trans h.settings
  contexts := h'.contexts.trans h.contexts
  schema := h'.schema.trans h.schema
  nodes := h'.nodes.trans h.nodes
  directory := h.directory.trans h'.directory
  slots p x hx := h'.slots p x (h.slots p x hx)

theorem of_world (h : SameWorld a b)
    (slots : ∀ p x, a.caches.at? p = some x → b.caches.at? p = some x) : Grown a b :=
  ⟨h.settings, h.contexts, h.schema, h.nodes, h.extends_directory, slots⟩

theorem of_idle (h : Idle a b) : Grown a b :=
  of_world h.toSameWorld fun p x hx => by rw [h.caches]; exact hx

theorem of_minted {name : String} (h : Minted a name b) : Grown a b := by
  refine ⟨h.idle.settings, h.idle.contexts, h.idle.schema, h.idle.nodes, h.extends_directory, ?_⟩
  intro p x hx
  rw [h.idle.caches]
  exact hx

theorem of_filled [EntryTable σ] {t : Target} {r : Except SpaceError (Option SubSpace)}
    (h : Filled a t r b) : Grown a b := of_world h.sameWorld h.at?_mono

theorem container?_eq (h : Grown a b) (object : ObjectRef) (frame : UInt32) :
    b.container? object frame = a.container? object frame :=
  container?_congr (by rw [h.settings]) h.nodes object frame

theorem way_eq (h : Grown a b) (q : Query) : b.way q = a.way q := by
  have hkey : ∀ context frame, b.registerKey context frame = a.registerKey context frame := by
    intro context frame
    unfold registerKey hasSchema
    rw [h.settings, h.schema]
  unfold way contextWay registerWay
  simp only [h.settings, h.contexts, hkey]

theorem slotOn?_mono (h : Grown a b) {way : Way} {p : SlotKey} (hp : a.slotOn? way = some p) :
    b.slotOn? way = some p := by
  cases way with
  | space space => exact hp
  | bank context frame => exact hp
  | object object frame =>
      obtain ⟨container, hcontainer, hspace⟩ := Option.bind_eq_some_iff.mp hp
      obtain ⟨space, hfind, rfl⟩ := Option.map_eq_some_iff.mp hspace
      simp only [slotOn?, h.container?_eq, hcontainer, Option.bind_some,
        h.directory.find? _ _ hfind, Option.map_some]

theorem slotFor?_mono (h : Grown a b) {p : SlotKey} (hp : a.slotFor? q = some p) :
    b.slotFor? q = some p := by
  unfold slotFor? at hp ⊢
  rw [h.way_eq]
  split at hp
  · exact h.slotOn?_mono hp
  · cases hp

end Grown

/-! ## The slot of a container -/

theorem grown_overlay (a : Atlas σ) (name : String) : Grown a (a.overlay name).2 := by
  have hspec := overlay_spec a name
  revert hspec
  generalize a.overlay name = answer
  obtain ⟨r, b⟩ := answer
  intro hspec
  cases hspec with
  | refused nothing idle => exact .of_idle idle
  | found found idle => exact .of_idle idle
  | minted found minted => exact .of_minted minted

theorem grown_filledForContainer [EntryTable σ] (a : Atlas σ) (container : ObjectRef) :
    Grown a (a.filledForContainer container).2 := by
  have hoverlay := grown_overlay a container.path.text
  unfold filledForContainer
  revert hoverlay
  generalize a.overlay container.path.text = answer
  obtain ⟨e | _ | space, b⟩ := answer <;> intro hoverlay
  · exact hoverlay
  · exact hoverlay
  · have hcheck := idle_check b space
    dsimp only
    revert hcheck
    generalize b.check space = answer
    obtain ⟨e | _, c⟩ := answer <;> intro hcheck
    · exact hoverlay.trans (.of_idle hcheck)
    · exact (hoverlay.trans (.of_idle hcheck)).trans
        (.of_filled (fillSlot_spec c (.ofSpace space)))

/-! ## Slots that entries stand for -/

/-- The slot that a row with this entry stands for: without a context the memory slot of its space,
with one and the register space the bank, and otherwise the slot in which a load puts it. -/
def home? (a : Atlas σ) (entry : Entry) : Option SlotKey :=
  if entry.context = Entry.noContext then (a.resolve? entry.space).map .memory
  else if entry.space = a.settings.language.registerSpace.name then
    some (.register ⟨entry.context, entry.frame⟩)
  else (a.target? entry).map (·.slot)

/-- The entry is of no context, or of one that the registry knows. -/
def Knows (a : Atlas σ) (entry : Entry) : Prop :=
  entry.context = Entry.noContext ∨ (a.context? entry.context).isSome = true

/-- In orderly surroundings a load puts a row in the slot that it stands for. -/
theorem home?_eq_of_target? (ha : Orderly a.settings a.trace)
    (sentinel : a.trace.directory.find? noAddressName = none) {entry : Entry} {t : Target}
    (ht : a.target? entry = some t) : a.home? entry = some t.slot := by
  obtain ⟨hresolve, hleads⟩ := target?_eq_some ht
  unfold home?
  by_cases hbank : entry.context = Entry.noContext
  · rw [if_pos hbank, hresolve]
    cases hleads with
    | memory slot unbound => rw [slot]; rfl
    | register slot kind bank => exact absurd hbank bank
  · rw [if_neg hbank]
    split
    · next hname =>
        cases hleads with
        | memory slot unbound =>
            -- the register space is of register kind, and its rows with a context are banks
            have hspace : t.space = a.settings.language.registerSpace := by
              have hregisters := ha.registers
              unfold resolve? at hresolve
              split at hresolve
              · next hno => rw [← hname, hno, sentinel] at hregisters; cases hregisters
              · rw [hname, hregisters] at hresolve
                exact (Option.some.inj hresolve).symm
            exact absurd (unbound (hspace ▸ ha.isRegister)) hbank
        | register slot kind bank => rw [slot]
    · rw [ht]
      rfl

theorem Grown.home?_mono (h : Grown a b) {entry : Entry} {p : SlotKey}
    (hp : a.home? entry = some p) : b.home? entry = some p := by
  have hresolve : ∀ name space, a.resolve? name = some space → b.resolve? name = some space := by
    intro name space hspace
    unfold resolve? at hspace ⊢
    split at hspace
    · next hname => rw [if_pos hname]; exact hspace
    · next hname => rw [if_neg hname]; exact h.directory.find? _ _ hspace
  unfold home? at hp ⊢
  rw [h.settings]
  split at hp
  · next hbank =>
      obtain ⟨space, hspace, rfl⟩ := Option.map_eq_some_iff.mp hp
      rw [if_pos hbank, hresolve _ _ hspace]
      rfl
  · next hbank =>
      rw [if_neg hbank]
      split at hp
      · next hname => rw [if_pos hname]; exact hp
      · next hname =>
          obtain ⟨t, ht, rfl⟩ := Option.map_eq_some_iff.mp hp
          rw [if_neg hname, target?_of_extends (by rw [h.settings]) h.contexts h.directory ht]
          rfl

theorem Grown.knows_iff (h : Grown a b) (entry : Entry) : b.Knows entry ↔ a.Knows entry := by
  unfold Knows
  rw [context?_congr (by rw [h.settings]) h.contexts]

theorem home?_ofSpace (sentinel : a.trace.directory.find? noAddressName = none)
    {space : AddressSpace}
    (hspace : space = .noAddress ∨ a.trace.directory.find? space.name = some space) :
    a.home? (Target.ofSpace space).entry = some (.memory space) := by
  have hresolve : a.resolve? space.name = some space := by
    unfold resolve?
    rcases hspace with rfl | hfind
    · rfl
    · rw [if_neg, hfind]
      intro hname
      rw [hname, sentinel] at hfind
      cases hfind
  show a.home? (.unbound space.name) = _
  unfold home? Entry.unbound
  rw [if_pos rfl, hresolve]
  rfl

theorem home?_ofBank {context : ExecutionContext} (hkey : context.key ≠ Entry.noContext)
    (frame : UInt32) :
    a.home? (Target.ofBank a.settings.language.registerSpace context frame).entry =
      some (.register ⟨context.key, frame⟩) := by
  show a.home? ⟨a.settings.language.registerSpace.name, context.key, frame⟩ = _
  unfold home?
  rw [if_neg hkey, if_pos rfl]

end Atlas
end TraceAtlas
