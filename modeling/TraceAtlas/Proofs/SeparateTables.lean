import TraceAtlas.Proofs.OneToOne
import TraceAtlas.Proofs.TableNames

/-!
# Every slot has a table of its own

Two sub-spaces on one table would write over each other's values. A table is named when its
sub-space is built, and the sub-space may later be put in a slot again because its row is bound to
it, so it has to be seen that the name still fits the slot then. `Fits` says of a name that it is
made of nothing but the slot, and `Fitted` is the invariant: what is in a slot fits it, and what is
bound to a row fits whatever slot the row can lead to, now or when more overlays are there.

Neither the table nor the factory has a say in this, so nothing is asked of them. What is asked of
the surroundings (`TellsApart`) is that names mean one thing: contexts have other keys than the one
that stands for none, and what the directory files under the name of the register space is of
register kind.
-/

namespace TraceAtlas

/-- The table of a sub-space is named after the slot: after the space of a memory slot, and after
the context and the frame of a register slot, whatever its space is called. -/
def SlotKey.Fits (manager : String) (x : SubSpace) : SlotKey → Prop
  | .memory space => x.slot.table = tableName manager space Entry.noContext 0
  | .register bank => ∃ space : AddressSpace, space.isRegister = true ∧
      bank.context ≠ Entry.noContext ∧
      x.slot.table = tableName manager space bank.context bank.frame

/-- A table that fits two slots fits two memory slots whose spaces have one name. -/
theorem SlotKey.Fits.eq_or {manager : String} {x y : SubSpace} {p q : SlotKey}
    (hp : p.Fits manager x) (hq : q.Fits manager y) (htable : x.slot.table = y.slot.table) :
    p = q ∨ ∃ s t : AddressSpace, p = .memory s ∧ q = .memory t ∧ s.name = t.name := by
  cases p with
  | memory s =>
      cases q with
      | memory t =>
          rw [hp, hq, tableName_eq_iff] at htable
          exact .inr ⟨s, t, rfl, rfl, htable.1⟩
      | register bank =>
          obtain ⟨t, ht, hbank, hy⟩ := hq
          rw [hp, hy, tableName_eq_iff, AddressSpace.bank?_noContext] at htable
          simp [AddressSpace.bank?, ht, hbank] at htable
  | register bank =>
      obtain ⟨s, hs, hbank, hx⟩ := hp
      cases q with
      | memory t =>
          rw [hx, hq, tableName_eq_iff, AddressSpace.bank?_noContext] at htable
          simp [AddressSpace.bank?, hs, hbank] at htable
      | register bank' =>
          obtain ⟨t, ht, hbank', hy⟩ := hq
          rw [hx, hy, tableName_eq_iff] at htable
          simp [AddressSpace.bank?, hs, hbank, ht, hbank'] at htable
          refine .inl (congrArg SlotKey.register ?_)
          cases bank
          cases bank'
          simp_all

namespace Atlas

variable {σ : Type} {a b : Atlas σ}

/-! ## Where entries lead -/

/-- A space that is found under a name is called so. -/
theorem name_of_resolve? (filed : a.trace.directory.Filed) {name : String} {space : AddressSpace}
    (h : a.resolve? name = some space) : space.name = name := by
  unfold resolve? at h
  split at h
  · next hname =>
      cases h
      exact hname.symm
  · exact filed name space h

/-- Whatever the row, the sub-space that is built for it fits the slot that it leads to. -/
theorem fits_subSpace {entry : Entry} {t : Target} (h : LeadsTo entry t) (serial : Nat)
    (key : RowKey) : t.slot.Fits a.settings.name (a.subSpace serial t key entry) := by
  cases h with
  | memory slot unbound =>
      rw [slot]
      show tableName a.settings.name t.space entry.context entry.frame = _
      rw [tableName_eq_iff, AddressSpace.bank?_noContext]
      refine ⟨rfl, ?_⟩
      unfold AddressSpace.bank?
      rw [if_neg]
      rintro ⟨hkind, hbank⟩
      exact hbank (unbound hkind)
  | register slot kind bank =>
      rw [slot]
      exact ⟨t.space, kind, bank, rfl⟩

end Atlas

/-! ## The invariant -/

/-- Names and keys of the surroundings mean one thing each. -/
structure TellsApart (settings : Settings) (trace : Trace) : Prop where
  filed : trace.directory.Filed
  kind : settings.language.registerSpace.isRegister = true
  /-- The register space is not named like the sentinel. -/
  notSentinel : settings.language.registerSpace.name ≠ noAddressName
  registers : ∀ space, trace.directory.find? settings.language.registerSpace.name = some space →
    space.isRegister = true
  keys : ∀ context, ContextDirectory.owns trace.contexts context = true →
    context.key ≠ Entry.noContext

namespace Atlas

variable {σ : Type} {a b : Atlas σ}

/-- Whatever slot `entry` leads to, now or when overlays are added, `x` fits it. -/
structure Suits (a : Atlas σ) (entry : Entry) (x : SubSpace) : Prop where
  fits : ∀ t, a.target? entry = some t → t.slot.Fits a.settings.name x
  /-- The space of the entry is known, or it is the register space and may still come to be. -/
  known : (a.resolve? entry.space).isSome = true ∨
    entry.space = a.settings.language.registerSpace.name ∧
      SlotKey.Fits a.settings.name x (.register ⟨entry.context, entry.frame⟩)

structure Fitted (a : Atlas σ) : Prop where
  tellsApart : TellsApart a.settings a.trace
  fits : ∀ p x, a.caches.at? p = some x → p.Fits a.settings.name x
  /-- The space of a filled memory slot is filed under its name, or it is the sentinel. -/
  filed : ∀ space x, a.caches.at? (.memory space) = some x →
    a.trace.directory.find? space.name = some space ∨ space = .noAddress
  bound : ∀ key entry x, a.caches.bindings.get? key = some ⟨entry, x⟩ → a.Suits entry x

theorem SameWorld.tellsApart (h : SameWorld a b) (ha : TellsApart a.settings a.trace) :
    TellsApart b.settings b.trace where
  filed name space hfind := ha.filed name space (h.find?_eq name ▸ hfind)
  kind := h.settings ▸ ha.kind
  notSentinel := h.settings ▸ ha.notSentinel
  registers space hfind := by
    rw [h.settings, h.find?_eq] at hfind
    exact ha.registers space hfind
  keys := h.contexts ▸ ha.keys

theorem Suits.of_world (h : SameWorld a b) {entry : Entry} {x : SubSpace} (ha : a.Suits entry x) :
    b.Suits entry x where
  fits t ht := by
    rw [h.target?_eq] at ht
    rw [h.settings]
    exact ha.fits t ht
  known := by
    rw [h.resolve?_eq, h.settings]
    exact ha.known

theorem Fitted.of_world (h : SameWorld a b) (slots : ∀ p, b.caches.at? p = a.caches.at? p)
    (bindings : ∀ key c, b.caches.bindings.get? key = some c → a.caches.bindings.get? key = some c)
    (ha : a.Fitted) : b.Fitted where
  tellsApart := h.tellsApart ha.tellsApart
  fits p x hx := by
    rw [slots] at hx
    rw [h.settings]
    exact ha.fits p x hx
  filed space x hx := by
    rw [slots] at hx
    rw [h.find?_eq]
    exact ha.filed space x hx
  bound key entry x hget := (ha.bound key entry x (bindings key _ hget)).of_world h

theorem Fitted.of_caches (h : SameWorld a b) (caches : b.caches = a.caches) (ha : a.Fitted) :
    b.Fitted := by
  apply ha.of_world h <;> simp [caches]

/-- A slot is filled with what fits it, and the row it stands for is bound. -/
theorem Fitted.put (h : SameWorld a b) {key : RowKey} {entry : Entry} {x : SubSpace} {p : SlotKey}
    (caches : b.caches = a.caches.put ⟨key, entry, x⟩ p) (fits : p.Fits a.settings.name x)
    (filed : ∀ space, p = .memory space →
      a.trace.directory.find? space.name = some space ∨ space = .noAddress)
    (suits : a.Suits entry x) (ha : a.Fitted) : b.Fitted where
  tellsApart := h.tellsApart ha.tellsApart
  fits q y hy := by
    rw [caches, Caches.at?_put] at hy
    rw [h.settings]
    split at hy
    · next hq =>
        cases hy
        rw [hq]
        exact fits
    · exact ha.fits q y hy
  filed space y hy := by
    rw [caches, Caches.at?_put] at hy
    rw [h.find?_eq]
    split at hy
    · next hq => exact filed space hq.symm
    · exact ha.filed space y hy
  bound key' entry' y hget := by
    rw [caches, Caches.bindings_put, SortedMap.get?_insert] at hget
    split at hget
    · cases hget
      exact suits.of_world h
    · exact (ha.bound key' entry' y hget).of_world h

/-! ## The steps of a lookup -/

theorem isRegister_of_resolve? (h : TellsApart a.settings a.trace)
    {space : AddressSpace}
    (hspace : a.resolve? a.settings.language.registerSpace.name = some space) :
    space.isRegister = true := by
  unfold resolve? at hspace
  rw [if_neg h.notSentinel] at hspace
  exact h.registers space hspace

theorem Minted.tellsApart {name : String} (h : Minted a name b)
    (ha : TellsApart a.settings a.trace) : TellsApart b.settings b.trace := by
  refine h.idle.tellsApart ⟨ha.filed.mint name _, ha.kind, ha.notSentinel, ?_, ha.keys⟩
  intro space hfind
  change (a.trace.directory.mint name a.settings.language.registerSpace).find? _ = _ at hfind
  rw [Directory.find?_mint] at hfind
  split at hfind
  · -- an overlay is of the kind of its base
    cases hfind
    exact ha.kind
  · exact ha.registers space hfind

theorem Suits.of_minted {name : String} {entry : Entry} {x : SubSpace} (h : Minted a name b)
    (hb : TellsApart b.settings b.trace) (ha : a.Suits entry x) : b.Suits entry x := by
  have hsettings : b.settings = a.settings := h.idle.settings
  rcases ha.known with hknown | ⟨hname, hfits⟩
  · refine ⟨?_, .inl (by rw [h.resolve?_of_known hknown, hknown])⟩
    rw [h.target?_of_known hknown, hsettings]
    exact ha.fits
  · rw [← hsettings] at hname hfits
    refine ⟨?_, .inr ⟨hname, hfits⟩⟩
    intro t ht
    obtain ⟨hspace, hleads⟩ := target?_eq_some ht
    rw [hname] at hspace
    cases hleads with
    | memory slot unbound =>
        obtain ⟨-, -, hbank, -⟩ := hfits
        exact absurd (unbound (isRegister_of_resolve? hb hspace)) hbank
    | register slot kind bank =>
        rw [slot]
        exact hfits

theorem Fitted.of_minted {name : String} (h : Minted a name b) (ha : a.Fitted) : b.Fitted := by
  have htells := h.tellsApart ha.tellsApart
  have hsettings : b.settings = a.settings := h.idle.settings
  have hcaches : b.caches = a.caches := h.idle.caches
  refine ⟨htells, ?_, ?_, ?_⟩
  · rw [hcaches, hsettings]
    exact ha.fits
  · rw [hcaches]
    intro space x hx
    exact (ha.filed space x hx).imp_left (h.extends_directory.find? _ _)
  · rw [hcaches]
    intro key entry x hget
    exact (ha.bound key entry x hget).of_minted h htells

/-- A sub-space that is built for the memory slot of a space suits the space's entry. -/
theorem suits_ofSpace (filed : a.trace.directory.Filed) {space : AddressSpace}
    (h : a.trace.directory.find? space.name = some space ∨ space = .noAddress) (serial : Nat)
    (key : RowKey) : a.Suits (.unbound space.name)
      (a.subSpace serial (.ofSpace space) key (.unbound space.name)) where
  fits t ht := by
    obtain ⟨hspace, hleads⟩ := target?_eq_some ht
    cases hleads with
    | memory slot unbound =>
        rw [slot]
        show tableName a.settings.name space Entry.noContext 0 = _
        rw [tableName_eq_iff, AddressSpace.bank?_noContext, AddressSpace.bank?_noContext]
        exact ⟨(name_of_resolve? filed hspace).symm, rfl⟩
    | register slot kind bank => exact absurd rfl bank
  known := by
    refine .inl ?_
    show (a.resolve? space.name).isSome = true
    unfold resolve?
    split
    · rfl
    · next hname =>
        rcases h with hfind | rfl
        · rw [hfind]
          rfl
        · exact absurd rfl hname

theorem suits_ofBank (ha : TellsApart a.settings a.trace) {context : ExecutionContext}
    (hkey : context.key ≠ Entry.noContext) (frame : UInt32) (serial : Nat) (key : RowKey) :
    a.Suits (Target.ofBank a.settings.language.registerSpace context frame).entry
      (a.subSpace serial (.ofBank a.settings.language.registerSpace context frame) key
        (Target.ofBank a.settings.language.registerSpace context frame).entry) := by
  have hfits : SlotKey.Fits a.settings.name
      (a.subSpace serial (.ofBank a.settings.language.registerSpace context frame) key
        (Target.ofBank a.settings.language.registerSpace context frame).entry)
      (.register ⟨context.key, frame⟩) :=
    ⟨a.settings.language.registerSpace, ha.kind, hkey, rfl⟩
  refine ⟨?_, .inr ⟨rfl, hfits⟩⟩
  intro t ht
  obtain ⟨hspace, hleads⟩ := target?_eq_some ht
  cases hleads with
  | memory slot unbound => exact absurd (unbound (isRegister_of_resolve? ha hspace)) hkey
  | register slot kind bank =>
      rw [slot]
      exact hfits

end Atlas

/-- What a lookup names without having it checked is told apart: the only space of the sentinel's
kind is the sentinel, and no context has the key that stands for none. -/
structure Query.Apart (q : Query) : Prop where
  sentinel : ∀ space ∈ q.space?, space.isNoAddress = true → space = .noAddress
  keys : ∀ context ∈ q.unchecked?, context.key ≠ Entry.noContext

instance (q : Query) : Decidable q.Apart :=
  decidable_of_iff ((∀ space ∈ q.space?, space.isNoAddress = true → space = .noAddress) ∧
      ∀ context ∈ q.unchecked?, context.key ≠ Entry.noContext)
    ⟨fun h => ⟨h.1, h.2⟩, fun h => ⟨h.sentinel, h.keys⟩⟩

def Call.Apart : Call → Prop
  | .ask q _ => q.Apart
  | _ => True

instance : DecidablePred Call.Apart
  | .ask q _ => inferInstanceAs (Decidable q.Apart)
  | .load => isTrue trivial
  | .invalidate => isTrue trivial

namespace Atlas

variable {σ : Type} [EntryTable σ] {a b : Atlas σ}

omit [EntryTable σ] in
/-- **What a lookup fills a slot with fits the slot,** and whatever slot its row can lead to. -/
theorem Names.fits {q : Query} {t : Target} (h : a.Names q t) (hq : q.Apart)
    (ha : TellsApart a.settings a.trace) (serial : Nat) (key : RowKey) :
    t.slot.Fits a.settings.name (a.subSpace serial t key t.entry) ∧
      (∀ space, t.slot = .memory space →
        a.trace.directory.find? space.name = some space ∨ space = .noAddress) ∧
      a.Suits t.entry (a.subSpace serial t key t.entry) := by
  have hmemory : ∀ space : AddressSpace,
      a.trace.directory.find? space.name = some space ∨ space = .noAddress →
      (∀ s, (Target.ofSpace space).slot = .memory s →
        a.trace.directory.find? s.name = some s ∨ s = .noAddress) := by
    rintro space hspace s hs
    cases hs
    exact hspace
  cases h with
  | @space space named admitted =>
      have hspace : a.trace.directory.find? space.name = some space ∨ space = .noAddress := by
        by_cases hno : space.isNoAddress = true
        · exact .inr (hq.sentinel space named hno)
        · exact .inl (admitted.find?_eq (by simpa using hno))
      exact ⟨rfl, hmemory space hspace, suits_ofSpace ha.filed hspace serial key⟩
  | @container name space found admitted =>
      have hspace : a.trace.directory.find? space.name = some space ∨ space = .noAddress := by
        rw [ha.filed name space found]
        exact .inl found
      exact ⟨rfl, hmemory space hspace, suits_ofSpace ha.filed hspace serial key⟩
  | @bank context frame contexts owned =>
      have hkey : context.key ≠ Entry.noContext := owned.elim (ha.keys context) (hq.keys context)
      refine ⟨⟨_, ha.kind, hkey, rfl⟩, ?_, suits_ofBank ha hkey frame serial key⟩
      rintro space hslot
      cases hslot

theorem Fitted.of_filled {q : Query} {t : Target} {r : Except SpaceError (Option SubSpace)}
    (names : a.Names q t) (hq : q.Apart) (h : Filled a t r b) (ha : a.Fitted) : b.Fitted := by
  have hworld := h.sameWorld
  rcases h.placed with ⟨caches, -⟩ | ⟨key, caches, -⟩
  · exact ha.of_caches hworld caches
  · obtain ⟨fits, filed, suits⟩ := names.fits hq ha.tellsApart a.trace.factory.built key
    exact ha.put hworld caches fits filed suits

theorem stable_fitted {q : Query} (hq : q.Apart) (create : Bool) :
    Stable q create fun a : Atlas σ => a.Fitted where
  idle hidle ha := ha.of_caches hidle.toSameWorld hidle.caches
  mint _ hminted ha := ha.of_minted hminted
  fill _ names hfilled ha := ha.of_filled names hq hfilled
  remember {a _ _ _ _ _} _ _ _ ha := Fitted.of_caches (a := a) ⟨rfl, rfl, rfl, rfl, rfl⟩ rfl ha

/-! ## Loads -/

omit [EntryTable σ] in
theorem Fitted.of_rowLoaded {key : RowKey} {entry : Entry} {r : Except SpaceError Bool}
    (h : RowLoaded a key entry r b) (ha : a.Fitted) : b.Fitted := by
  have hworld := h.kept.toSameWorld
  have hfiled : ∀ {t}, a.target? entry = some t → ∀ space, t.slot = .memory space →
      a.trace.directory.find? space.name = some space ∨ space = .noAddress := by
    intro t ht space hslot
    obtain ⟨hspace, hleads⟩ := target?_eq_some ht
    cases hleads with
    | memory slot unbound =>
        obtain rfl : t.space = space := SlotKey.memory.inj (slot.symm.trans hslot)
        rw [name_of_resolve? ha.tellsApart.filed hspace]
        unfold resolve? at hspace
        split at hspace
        · exact .inr (Option.some.inj hspace).symm
        · exact .inl hspace
    | register slot kind bank =>
        rw [slot] at hslot
        cases hslot
  rcases h.placed with ⟨caches, -⟩ | ⟨t, x, target, caches, ⟨bound, -⟩ | ⟨rfl, -⟩⟩
  · exact ha.of_caches hworld caches
  · have hsuits := ha.bound key entry x (Caches.binding?_eq_some_iff.mp bound)
    exact ha.put hworld caches (hsuits.fits t target) (hfiled target) hsuits
  · obtain ⟨hspace, hleads⟩ := target?_eq_some target
    have hfits := fits_subSpace (a := a) hleads a.trace.factory.built key
    refine ha.put hworld caches hfits (hfiled target) ⟨?_, .inl (by rw [hspace]; rfl)⟩
    intro t' ht'
    rw [target] at ht'
    cases ht'
    exact hfits

theorem Fitted.loadTable (ha : a.Fitted) : a.loadTable.2.Fitted := by
  refine loadTable_preserves (P := Fitted) ?_ ?_ ?_ ?_ ha
  · intro a b hidle ha
    exact ha.of_caches hidle.toSameWorld hidle.caches
  · intro a table ha
    exact Fitted.of_caches (a := a) ⟨rfl, rfl, rfl, rfl, rfl⟩ rfl ha
  · intro rows _ a b key entry r _ hrow ha
    exact ha.of_rowLoaded hrow
  · intro a keys ha
    refine ha.of_world (sameWorld_withCaches a _) (Caches.at?_keepBindings a.caches keys) ?_
    intro key c hget
    change (a.caches.keepBindings keys).bindings.get? key = some c at hget
    rw [Caches.get?_bindings_keepBindings] at hget
    split at hget
    · exact hget
    · cases hget

/-! ## Runs -/

theorem Fitted.load (ha : a.Fitted) : a.load.2.Fitted :=
  have hidle := idle_report a.loadTable.2
  ha.loadTable.of_caches hidle.toSameWorld hidle.caches

theorem Fitted.invalidate (ha : a.Fitted) : a.invalidate.2.Fitted := by
  apply invalidate_preserves (P := Fitted)
  · intro a b hidle ha
    exact ha.of_caches hidle.toSameWorld hidle.caches
  · intro a ha
    exact Fitted.of_caches (sameWorld_forgetAll a) rfl ha
  · -- empty slots fit, and the bindings are what they were
    refine Fitted.loadTable ⟨ha.tellsApart, ?_, ?_, ?_⟩
    · intro p x hx
      cases p <;> cases hx
    · intro space x hx
      cases hx
    · intro key entry x hget
      exact (ha.bound key entry x hget).of_world (sameWorld_clear a)

theorem Fitted.perform {c : Call} (hc : c.Apart) (ha : a.Fitted) : (a.perform c).Fitted := by
  cases c with
  | ask q create => exact (stable_fitted hc create).ask ha
  | load => exact ha.load
  | invalidate => exact ha.invalidate

/-- The sub-spaces in different slots have different tables. -/
def TablesApart (a : Atlas σ) : Prop :=
  ∀ p q x y, a.caches.at? p = some x → a.caches.at? q = some y → p ≠ q → x.slot.table ≠ y.slot.table

omit [EntryTable σ] in
theorem Fitted.tablesApart (ha : a.Fitted)
    (sentinel : ∀ space, a.trace.directory.find? noAddressName = some space → space = .noAddress) :
    a.TablesApart := by
  intro p q x y hx hy hne htable
  rcases (ha.fits p x hx).eq_or (ha.fits q y hy) htable with rfl | ⟨s, t, rfl, rfl, hname⟩
  · exact hne rfl
  · -- two spaces of one name are filed under it both, or one of them is the sentinel
    apply hne
    rcases ha.filed s x hx with hs | rfl <;> rcases ha.filed t y hy with ht | rfl
    · rw [hname, ht] at hs
      rw [Option.some.inj hs]
    · rw [hname] at hs
      rw [sentinel s hs]
    · rw [← hname] at ht
      rw [sentinel t ht]
    · rfl

variable {settings : Settings} {trace : Trace} {calls : List Call}

theorem fitted_start (tellsApart : TellsApart settings trace) (table : σ) :
    (start settings table trace).2.Fitted := by
  have hnew : Fitted ⟨⟨settings, {}, .empty, []⟩, table, trace⟩ := by
    refine ⟨tellsApart, ?_, ?_, ?_⟩
    · intro p x hx
      cases p <;> cases hx
    · intro space x hx
      cases hx
    · intro key entry x hget
      cases hget
  unfold start
  dsimp only
  split
  · exact hnew.load
  · exact hnew

/-- **In every state that a run can reach, no two slots share a table,** whatever the table of
entries answers and whether the factory fails or not. -/
theorem run_tablesApart (table : σ) (tellsApart : TellsApart settings trace)
    (apart : ∀ c ∈ calls, c.Apart)
    (sentinel : ∀ space,
      ((start settings table trace).2.run calls).trace.directory.find? noAddressName = some space →
        space = .noAddress) :
    ((start settings table trace).2.run calls).TablesApart := by
  have hend : ((start settings table trace).2.run calls).Fitted :=
    run_preserves (fun hc ha => ha.perform (apart _ hc)) (fitted_start tellsApart table)
  exact hend.tablesApart sentinel

theorem run_tablesApart_manyCalls :
    ((start { name := "Memory" } ({ name := "MemorySpaces" } : MemoryTable) .single).2.run
      manyCalls).TablesApart := by
  have htells : TellsApart { name := "Memory" } .single :=
    ⟨Directory.filed_standard, rfl, by decide, by decide, orderly_single.keys⟩
  have hnone : ((start { name := "Memory" } ({ name := "MemorySpaces" } : MemoryTable)
      .single).2.run manyCalls).trace.directory.find? noAddressName = none := by
    decide
  exact run_tablesApart _ htells (by decide) (by simp [hnone])

/-- All frames of a context with the key that stands for none get the table of the register space,
without a suffix. -/
theorem not_tablesApart_noContext :
    let context : ExecutionContext := { key := Entry.noContext, name := "main" }
    ¬ ((start { name := "Memory" } ({ name := "MemorySpaces" } : MemoryTable)
      { contexts := ⟨[(Entry.noContext, context)]⟩ }).2.run
        [.ask (.context context 0) true, .ask (.context context 1) true]).TablesApart := by
  intro context h
  have hfirst := h (.register ⟨-1, 0⟩) (.register ⟨-1, 1⟩)
    ⟨0, Language.standard.registerSpace, some (-1), ⟨0, ⟨"register", -1, 0⟩, "Memory_register"⟩⟩
    ⟨1, Language.standard.registerSpace, some (-1), ⟨1, ⟨"register", -1, 1⟩, "Memory_register"⟩⟩
    (by decide +kernel) (by decide +kernel) (by decide)
  exact hfirst rfl

end Atlas
end TraceAtlas
