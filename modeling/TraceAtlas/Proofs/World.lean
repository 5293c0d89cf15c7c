import TraceAtlas.Atlas.Basic
import TraceAtlas.Atlas.Object

/-!
# What the sections of an operation leave alone

Operations of an atlas count questions, leave notices and put errors aside, and none of that
decides what a later operation answers. Two atlases are of the `SameWorld` when they agree on
everything that answers are read off except the slots, the table and the factory; `Kept` adds the
table and what was found through objects, and `Idle` the slots and the factory. The lemmas below
say which of the small steps are idle and what the others answer.
-/

namespace TraceAtlas

/-! ## The directory -/

namespace Directory

/-- Whether a space may have sub-spaces: the directory vouches for it and it is of a fitting kind.
-/
def Admits (d : Directory) (space : AddressSpace) : Prop :=
  d.vouchesFor space = true ∧ space.isKeepable = true

/-- An admitted space is filed under its own name, unless it stands for the absence of a space. -/
theorem Admits.find?_eq {d : Directory} {space : AddressSpace} (h : d.Admits space)
    (hno : space.isNoAddress = false) : d.find? space.name = some space := by
  have hv := h.1
  simp only [vouchesFor, hno, Bool.false_or, Bool.and_eq_true, beq_iff_eq] at hv
  exact hv.1

/-- `e` has every space of `d`, and refuses the same names. -/
structure Extends (d e : Directory) : Prop where
  find? : ∀ name space, d.find? name = some space → e.find? name = some space
  refused : e.refused = d.refused

theorem Extends.refl (d : Directory) : d.Extends d := ⟨fun _ _ h => h, rfl⟩

theorem Extends.trans {d e f : Directory} (h : d.Extends e) (h' : e.Extends f) : d.Extends f :=
  ⟨fun name space hd => h'.find? name space (h.find? name space hd), h'.refused.trans h.refused⟩

theorem Extends.find?_eq_none {d e : Directory} (h : d.Extends e) {name : String}
    (hnone : e.find? name = none) : d.find? name = none := by
  cases hd : d.find? name with
  | none => rfl
  | some space =>
      rw [h.find? name space hd] at hnone
      cases hnone

theorem Extends.admits {d e : Directory} (h : d.Extends e) {space : AddressSpace}
    (hd : d.Admits space) : e.Admits space := by
  refine ⟨?_, hd.2⟩
  have hv := hd.1
  simp only [vouchesFor, Bool.and_eq_true, Bool.or_eq_true, beq_iff_eq] at hv ⊢
  rw [h.refused]
  exact ⟨hv.1.imp_right (h.find? _ _), hv.2⟩

end Directory

namespace Atlas

variable {σ : Type}

/-! ## Atlases that answer alike -/

/-- The surroundings agree as far as answers go; only questions are counted differently. -/
structure SameWorld (a b : Atlas σ) : Prop where
  settings : b.settings = a.settings
  contexts : b.trace.contexts = a.trace.contexts
  schema : b.trace.objects.schema = a.trace.objects.schema
  nodes : b.trace.objects.nodes = a.trace.objects.nodes
  directory : b.trace.directory = { a.trace.directory with calls := b.trace.directory.calls }

/-- The table, what was found through objects, and what sub-spaces were told agree as well. -/
structure Kept (a b : Atlas σ) : Prop extends SameWorld a b where
  byObject : b.registry.byObject = a.registry.byObject
  table : b.table = a.table
  forgotten : b.trace.factory.forgotten = a.trace.factory.forgotten

/-- All that differs is what was counted, noted, reported or put aside to be reported. -/
structure Idle (a b : Atlas σ) : Prop extends Kept a b where
  caches : b.caches = a.caches
  factory : b.trace.factory = a.trace.factory

theorem SameWorld.refl (a : Atlas σ) : SameWorld a a := ⟨rfl, rfl, rfl, rfl, rfl⟩

theorem Kept.refl (a : Atlas σ) : Kept a a := ⟨.refl a, rfl, rfl, rfl⟩

theorem Idle.refl (a : Atlas σ) : Idle a a := ⟨.refl a, rfl, rfl⟩

variable {a b c : Atlas σ}

theorem SameWorld.trans (h : SameWorld a b) (h' : SameWorld b c) : SameWorld a c where
  settings := h'.settings.trans h.settings
  contexts := h'.contexts.trans h.contexts
  schema := h'.schema.trans h.schema
  nodes := h'.nodes.trans h.nodes
  directory := by rw [h'.directory, h.directory]

theorem Kept.trans (h : Kept a b) (h' : Kept b c) : Kept a c :=
  ⟨h.toSameWorld.trans h'.toSameWorld, h'.byObject.trans h.byObject, h'.table.trans h.table,
    h'.forgotten.trans h.forgotten⟩

theorem Idle.trans (h : Idle a b) (h' : Idle b c) : Idle a c :=
  ⟨h.toKept.trans h'.toKept, h'.caches.trans h.caches, h'.factory.trans h.factory⟩

theorem SameWorld.of_table {table : σ} (h : SameWorld { a with table } b) : SameWorld a b :=
  ⟨h.settings, h.contexts, h.schema, h.nodes, h.directory⟩

theorem SameWorld.find?_eq (h : SameWorld a b) (name : String) :
    b.trace.directory.find? name = a.trace.directory.find? name := by
  rw [h.directory]
  rfl

theorem SameWorld.extends_directory (h : SameWorld a b) :
    a.trace.directory.Extends b.trace.directory := by
  rw [h.directory]
  exact ⟨fun _ _ h => h, rfl⟩

theorem context?_congr (settings : b.settings.contexts = a.settings.contexts)
    (contexts : b.trace.contexts = a.trace.contexts) (key : Int64) :
    b.context? key = a.context? key := by
  unfold context?
  rw [settings, contexts]

theorem SameWorld.context?_eq (h : SameWorld a b) (key : Int64) :
    b.context? key = a.context? key := context?_congr (by rw [h.settings]) h.contexts key

theorem sameWorld_withCaches (a : Atlas σ) (caches : Caches) : SameWorld a (a.withCaches caches) :=
  ⟨rfl, rfl, rfl, rfl, rfl⟩

/-! ## Idle steps -/

theorem idle_note (a : Atlas σ) (notices : List Notice) : Idle a (a.note notices) :=
  ⟨⟨⟨rfl, rfl, rfl, rfl, rfl⟩, rfl, rfl, rfl⟩, rfl, rfl⟩

theorem idle_report (a : Atlas σ) : Idle a a.report := by
  unfold report
  dsimp only
  split <;> exact ⟨⟨⟨rfl, rfl, rfl, rfl, rfl⟩, rfl, rfl, rfl⟩, rfl, rfl⟩

theorem idle_settle {α : Type} (a : Atlas σ) (table : String) (r : Except TableError α) :
    Idle a (a.settle table r).2 := by
  unfold settle
  split
  · exact .refl a
  · split
    · exact .refl a
    · exact ⟨⟨⟨rfl, rfl, rfl, rfl, rfl⟩, rfl, rfl, rfl⟩, rfl, rfl⟩

theorem idle_check (a : Atlas σ) (space : AddressSpace) : Idle a (a.check space).2 := by
  unfold check
  dsimp only
  split
  · exact ⟨⟨⟨rfl, rfl, rfl, rfl, rfl⟩, rfl, rfl, rfl⟩, rfl, rfl⟩
  · split <;> exact ⟨⟨⟨rfl, rfl, rfl, rfl, rfl⟩, rfl, rfl, rfl⟩, rfl, rfl⟩

theorem idle_findSpace (a : Atlas σ) (name : String) : Idle a (a.findSpace name).2 :=
  ⟨⟨⟨rfl, rfl, rfl, rfl, rfl⟩, rfl, rfl, rfl⟩, rfl, rfl⟩

theorem idle_container (a : Atlas σ) (object : ObjectRef) (frame : UInt32) :
    Idle a (a.container object frame).2 := by
  unfold container
  dsimp only
  split
  · exact .refl a
  · split
    · exact .refl a
    · exact ⟨⟨⟨rfl, rfl, rfl, rfl, rfl⟩, rfl, rfl, rfl⟩, rfl, rfl⟩

/-! ## What the idle steps answer -/

@[simp] theorem findSpace_fst (a : Atlas σ) (name : String) :
    (a.findSpace name).1 = a.trace.directory.find? name := rfl

/-- The check lets exactly the admitted spaces pass. -/
theorem check_eq_ok_iff (a : Atlas σ) (space : AddressSpace) :
    (a.check space).1 = .ok () ↔ a.trace.directory.Admits space := by
  unfold check Directory.Admits
  dsimp only
  split
  · next h => simp_all
  · split <;> simp_all

theorem settle_fst_eq_ok_some_iff {α : Type} {table : String} {r : Except TableError α} {x : α} :
    (a.settle table r).1 = .ok (some x) ↔ r = .ok x := by
  unfold settle
  split
  · simp
  · split <;> simp

end Atlas
end TraceAtlas
