import TraceAtlas.Proofs.Lookup
import TraceAtlas.Proofs.Run

/-!
# Orderly surroundings

Creating and loading meet in the entry of a row: a lookup writes the entry of the target that it
names, and a load reads off the entry where the row belongs. That the two agree
(`Names.target?_eq`) needs some order in the surroundings, `Orderly`, and callers who name nothing
that could not be found again, `Query.Proper`. Both last as long as nobody but the registry
touches the surroundings, apart from one thing: an overlay could still come to be named like the
sentinel.
-/

namespace TraceAtlas

/-! ## Directories that file spaces under their names -/

def Directory.Filed (d : Directory) : Prop := ∀ name space, d.find? name = some space →
    space.name = name

theorem Directory.Filed.add {d : Directory} (h : d.Filed) (s : AddressSpace) : (d.add s).Filed := by
  intro name space hfind
  have hinsert := SortedMap.get?_insert d.spaces s.name name s
  rw [show (d.add s).find? name = (d.spaces.insert s.name s).get? name from rfl, hinsert] at hfind
  split at hfind
  · next hname =>
      cases hfind
      exact hname.symm
  · exact h name space hfind

theorem Directory.Filed.mint {d : Directory} (h : d.Filed) (name : String) (base : AddressSpace) :
    (d.mint name base).Filed := h.add (.overlay d.nextId name base)

theorem Directory.filed_standard : Directory.standard.Filed := by
  have hempty : ({ spaces := .empty } : Directory).Filed := by
    intro name space hfind
    cases hfind
  exact ((((hempty.add _).add _).add _).add _).add _

/-! ## Order in the surroundings -/

/-- The surroundings of a registry that knows contexts, none of which has the key that stands for no
context. The register space can be found, and the factory never fails. -/
structure Orderly (settings : Settings) (trace : Trace) : Prop where
  contexts : settings.contexts = true
  keys : ∀ context, ContextDirectory.owns trace.contexts context = true →
    context.key ≠ Entry.noContext
  filed : trace.directory.Filed
  registers : trace.directory.find? settings.language.registerSpace.name =
    some settings.language.registerSpace
  isRegister : settings.language.registerSpace.isRegister = true
  reliable : trace.factory.Reliable

/-- What a lookup names without being checked can be found again: the only space of the sentinel's
kind is the sentinel, and a context comes from the directory. -/
structure Query.Proper (q : Query) (contexts : ContextDirectory) : Prop where
  sentinel : ∀ space ∈ q.space?, space.isNoAddress = true → space = .noAddress
  known : ∀ context ∈ q.unchecked?, ContextDirectory.owns contexts context = true

instance (q : Query) (contexts : ContextDirectory) : Decidable (q.Proper contexts) :=
  decidable_of_iff ((∀ space ∈ q.space?, space.isNoAddress = true → space = .noAddress) ∧
      ∀ context ∈ q.unchecked?, ContextDirectory.owns contexts context = true)
    ⟨fun h => ⟨h.1, h.2⟩, fun h => ⟨h.sentinel, h.known⟩⟩

def Call.Proper (contexts : ContextDirectory) : Call → Prop
  | .ask q _ => q.Proper contexts
  | _ => True

instance (contexts : ContextDirectory) : DecidablePred (Call.Proper contexts)
  | .ask q _ => inferInstanceAs (Decidable (q.Proper contexts))
  | .load => isTrue trivial
  | .invalidate => isTrue trivial

def ExecutionContext.main : ExecutionContext := { key := 5, name := "main" }

def ObjectRef.single : ObjectRef := ⟨1, ⟨["Registers"]⟩⟩

/-- A trace of one context and one object, which is a register container. -/
def Trace.single : Trace where
  contexts := ⟨[(5, .main)]⟩
  objects := { nodes := [⟨.single, true, none⟩] }

theorem orderly_single : Orderly { name := "Memory" } .single where
  contexts := rfl
  keys context howns := by
    have hget : ContextDirectory.context ⟨[(5, .main)]⟩ context.key = some context := by
      simpa [ContextDirectory.owns, Trace.single] using howns
    by_cases hkey : context.key = 5
    · rw [hkey]
      decide
    · simp [ContextDirectory.context, SortedMap.get?_eq, hkey] at hget
  filed := Directory.filed_standard
  registers := by decide
  isRegister := rfl
  reliable n := by simp [Factory.fault?, Trace.single]

theorem Factory.Reliable.of_plan_tail {f g : Factory} (h : f.Reliable)
    (hplan : g.plan = f.plan.tail) : g.Reliable := by
  intro n
  have hn := h (n + 1)
  unfold fault? at hn ⊢
  rw [hplan, List.getElem?_tail]
  exact hn

namespace Atlas

variable {σ : Type} {a b : Atlas σ}

theorem SameWorld.orderly (h : SameWorld a b) (reliable : b.trace.factory.Reliable)
    (ha : Orderly a.settings a.trace) : Orderly b.settings b.trace where
  contexts := by rw [h.settings]; exact ha.contexts
  keys := by rw [h.contexts]; exact ha.keys
  filed := by
    intro name space hfind
    rw [h.find?_eq] at hfind
    exact ha.filed name space hfind
  registers := by rw [h.settings, h.find?_eq]; exact ha.registers
  isRegister := by rw [h.settings]; exact ha.isRegister
  reliable := reliable

theorem Minted.orderly {name : String} (h : Minted a name b) (ha : Orderly a.settings a.trace) :
    Orderly b.settings b.trace := by
  refine h.idle.orderly ?_
    ⟨ha.contexts, ha.keys, ha.filed.mint name _, ?_, ha.isRegister, ha.reliable⟩
  · rw [h.idle.factory]
    exact ha.reliable
  · exact (Directory.extends_mint h.fresh _).find? _ _ ha.registers

theorem RowLoaded.reliable {key : RowKey} {entry : Entry} {r : Except SpaceError Bool}
    (h : RowLoaded a key entry r b) (ha : a.trace.factory.Reliable) : b.trace.factory.Reliable := by
  cases h with
  | homeless target idle =>
      rw [idle.factory]
      exact ha
  | reused target bound kept caches factory =>
      rw [factory]
      exact ha
  | built target unbound planned kept caches plan count => exact ha.of_plan_tail plan
  | failed target unbound planned harmless kept caches plan count =>
      rw [ha 0] at planned
      cases planned
  | refused target unbound planned version kept caches count =>
      rw [ha 0] at planned
      cases planned

theorem Filled.reliable [EntryTable σ] {t : Target} {r : Except SpaceError (Option SubSpace)}
    (h : Filled a t r b) (ha : a.trace.factory.Reliable) : b.trace.factory.Reliable := by
  cases h with
  | held held => exact ha
  | noRow empty create nothing idle =>
      rw [idle.factory]
      exact ha
  | noSpace empty create planned nothing kept caches plan count => exact ha.of_plan_tail plan
  | made empty create planned kept caches plan count => exact ha.of_plan_tail plan

theorem reliable_loadTable [EntryTable σ] (ha : a.trace.factory.Reliable) :
    a.loadTable.2.trace.factory.Reliable := by
  apply loadTable_preserves (P := fun b => b.trace.factory.Reliable)
  · intro b c hidle hb
    rw [hidle.factory]
    exact hb
  · intro b table hb
    exact hb
  · intro rows _ b c key entry r _ hrow hb
    exact hrow.reliable hb
  · intro b keys hb
    exact hb
  · exact ha

theorem reliable_load [EntryTable σ] (ha : a.trace.factory.Reliable) :
    a.load.2.trace.factory.Reliable := by
  show a.loadTable.2.report.trace.factory.Reliable
  rw [(idle_report _).factory]
  exact reliable_loadTable ha

theorem reliable_invalidate [EntryTable σ] (ha : a.trace.factory.Reliable) :
    a.invalidate.2.trace.factory.Reliable := by
  apply invalidate_preserves (P := fun b => b.trace.factory.Reliable)
  · intro b c hidle hb
    rw [hidle.factory]
    exact hb
  · intro b hb
    exact hb
  · exact reliable_loadTable ha

theorem loadRows_ok (ha : a.trace.factory.Reliable) (rows : List Row) :
    ∃ keys, (a.loadRows rows).1 = .ok keys := by
  induction rows generalizing a with
  | nil => exact ⟨[], rfl⟩
  | cons row rows ih =>
      obtain ⟨key, entry⟩ := row
      have hspec := loadRow_spec a key entry
      unfold loadRows
      revert hspec
      generalize a.loadRow key entry = answer
      obtain ⟨r, b⟩ := answer
      intro hspec
      have hb : b.trace.factory.Reliable := hspec.reliable ha
      cases r with
      | error e =>
          cases hspec with
          | refused target unbound planned version kept caches count =>
              rw [ha 0] at planned
              cases planned
      | ok placed =>
          obtain ⟨keys, hkeys⟩ := ih hb
          dsimp only
          revert hkeys
          generalize b.loadRows rows = answer
          obtain ⟨r, c⟩ := answer
          rintro rfl
          exact ⟨_, rfl⟩

theorem loadTable_ok [EntryTable σ] (ha : a.trace.factory.Reliable) {rows : List Row}
    (read : (EntryTable.rows a.table).1 = .ok rows) : a.loadTable.1 = .ok () := by
  unfold loadTable readRows
  simp only [read, settle, fill]
  obtain ⟨keys, hkeys⟩ := loadRows_ok (a := { a with table := (EntryTable.rows a.table).2 }) ha rows
  revert hkeys
  generalize loadRows { a with table := (EntryTable.rows a.table).2 } rows = answer
  obtain ⟨r, c⟩ := answer
  rintro rfl
  rfl

/-! ## Where rows belong -/

/-- A directory that has more spaces moves no row. -/
theorem target?_of_extends (settings : b.settings.contexts = a.settings.contexts)
    (contexts : b.trace.contexts = a.trace.contexts)
    (grown : a.trace.directory.Extends b.trace.directory) {entry : Entry} {t : Target}
    (ht : a.target? entry = some t) : b.target? entry = some t := by
  have hcontext := context?_congr settings contexts
  unfold target? at ht ⊢
  cases hspace : a.resolve? entry.space with
  | none => simp [hspace] at ht
  | some space =>
      have hspace' : b.resolve? entry.space = some space := by
        unfold resolve? at hspace ⊢
        split at hspace
        · next hname => rw [if_pos hname]; exact hspace
        · next hname => rw [if_neg hname]; exact grown.find? _ _ hspace
      simpa only [hspace, hspace', settings, hcontext] using ht

theorem Minted.extends_directory {name : String} (h : Minted a name b) :
    a.trace.directory.Extends b.trace.directory :=
  (Directory.extends_mint h.fresh _).trans h.idle.extends_directory

theorem Minted.target?_eq {name : String} (h : Minted a name b) {entry : Entry} {t : Target}
    (ht : a.target? entry = some t) : b.target? entry = some t :=
  target?_of_extends (a := a) (congrArg Settings.contexts h.idle.settings) h.idle.contexts
    h.extends_directory ht

theorem Minted.resolve?_of_known {name n : String} (h : Minted a name b)
    (hknown : (a.resolve? n).isSome = true) : b.resolve? n = a.resolve? n := by
  unfold resolve? at hknown ⊢
  split
  · rfl
  · next hname =>
      rw [if_neg hname] at hknown
      obtain ⟨space, hspace⟩ := Option.isSome_iff_exists.mp hknown
      rw [hspace, h.extends_directory.find? _ _ hspace]

/-- Where an entry leads does not change if its space is known, be it to no slot at all. -/
theorem Minted.target?_of_known {name : String} (h : Minted a name b) {entry : Entry}
    (hknown : (a.resolve? entry.space).isSome = true) : b.target? entry = a.target? entry := by
  have hsettings : b.settings = a.settings := h.idle.settings
  have hcontext := context?_congr (congrArg Settings.contexts hsettings) h.idle.contexts
  unfold target?
  simp only [h.resolve?_of_known hknown, hsettings, hcontext]

/-- A space that is filed under its name is found again by the entry of its memory slot. -/
theorem target?_ofSpace (ha : Orderly a.settings a.trace)
    (hsentinel : a.trace.directory.find? noAddressName = none) {space : AddressSpace}
    (hfind : a.trace.directory.find? space.name = some space) :
    a.target? (Target.ofSpace space).entry = some (.ofSpace space) := by
  have hname : space.name ≠ noAddressName := by
    intro hname
    rw [hname, hsentinel] at hfind
    cases hfind
  have hresolve : a.resolve? space.name = some space := by
    unfold resolve?
    rw [if_neg hname]
    exact hfind
  show a.target? (.unbound space.name) = _
  unfold target?
  simp only [Entry.unbound, hresolve, ha.contexts, Entry.context?, if_true]
  split <;> rfl

theorem target?_sentinel (a : Atlas σ) :
    a.target? (Target.ofSpace .noAddress).entry = some (.ofSpace .noAddress) := rfl

theorem target?_ofBank (ha : Orderly a.settings a.trace)
    (hsentinel : a.trace.directory.find? noAddressName = none) {context : ExecutionContext}
    (howns : ContextDirectory.owns a.trace.contexts context = true) (frame : UInt32) :
    a.target? (Target.ofBank a.settings.language.registerSpace context frame).entry =
      some (.ofBank a.settings.language.registerSpace context frame) := by
  have hname : a.settings.language.registerSpace.name ≠ noAddressName := by
    intro hname
    have hfind := ha.registers
    rw [hname, hsentinel] at hfind
    cases hfind
  have hresolve : a.resolve? a.settings.language.registerSpace.name =
      some a.settings.language.registerSpace := by
    unfold resolve?
    rw [if_neg hname]
    exact ha.registers
  have hcontext : a.context? context.key = some context := by
    unfold context?
    rw [if_pos ha.contexts]
    simpa [ContextDirectory.owns] using howns
  have hkey : context.key ≠ Entry.noContext := ha.keys context howns
  show a.target? ⟨a.settings.language.registerSpace.name, context.key, frame⟩ = _
  unfold target?
  simp only [hresolve, ha.isRegister, ha.contexts, Entry.context?, hkey, hcontext, if_true,
    if_false, Option.map_some]
  rfl

/-- **A lookup writes rows that a load puts where the lookup looks.** -/
theorem Names.target?_eq {q : Query} {t : Target} (h : a.Names q t)
    (hq : q.Proper a.trace.contexts) (ha : Orderly a.settings a.trace)
    (hsentinel : a.trace.directory.find? noAddressName = none) : a.target? t.entry = some t := by
  cases h with
  | @space space named admitted =>
      -- the sentinel is found under its reserved name, any other space under its own
      by_cases hno : space.isNoAddress = true
      · rw [hq.sentinel space named hno]
        exact target?_sentinel a
      · exact target?_ofSpace ha hsentinel (admitted.find?_eq (by simpa using hno))
  | @container name space found admitted =>
      refine target?_ofSpace ha hsentinel ?_
      rw [ha.filed name space found]
      exact found
  | @bank context frame contexts owned =>
      refine target?_ofBank ha hsentinel ?_ frame
      exact owned.elim id (hq.known context)

end Atlas
end TraceAtlas
