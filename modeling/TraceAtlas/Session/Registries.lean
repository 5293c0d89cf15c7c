import TraceAtlas.Atlas.Lookup
import TraceAtlas.Atlas.Reload
import TraceAtlas.Session.Basic

/-!
# Steps on registries

Registries are made from options, dropped, loaded, invalidated, listed and asked for sub-spaces. A
registry works on the trace and the shelf of its session: `onRegistry` puts the three together for
the length of one step.
-/

namespace TraceAtlas.Session

/-! ### Making registries -/

/-- A name and a way of loading that replace those given otherwise. -/
structure ConfigArg where
  name : String
  eager : Bool := true

structure Options where
  name : String := "Memory"
  /-- Leave the contexts of the trace unknown. -/
  bare : Bool := false
  /-- Leave the objects of the trace unknown. -/
  noObjects : Bool := false
  /-- Only note table errors. -/
  noteErrors : Bool := false
  eager : Option Bool := none
  config : Option ConfigArg := none

/-- The settings that options come to. -/
def Options.settings (o : Options) : Settings where
  name := (o.config.map (·.name)).getD o.name
  eager := (o.config.map (·.eager)).getD (o.eager.getD true)
  contexts := !o.bare
  objects := !o.noObjects
  hook := if o.noteErrors then .note else .record

/-- Settings in one line, with whether the objects they name address the trace. -/
def describeSettings (settings : Settings) (schema : Bool) : String :=
  "SpaceRegistryBuilder \x7b config: RegistryConfig \x7b name: " ++ Quoted.text settings.name ++
    ", eager_load: " ++ toString settings.eager ++ " \x7d, language: " ++
    Quoted.text settings.language.name ++ ", contexts: " ++
    (if settings.contexts then "Some(\"<resolver>\")" else "None") ++ ", objects: " ++
    toString (settings.objects && schema) ++ " \x7d"

/-- The settings that options come to, in one line. -/
def describeOptions (o : Options) : Step (Settings × String) := fun s =>
  (.ok (o.settings, describeSettings o.settings s.trace.objects.schema), s)

/-- What is told of a registry that was made. -/
structure RegistryFacts where
  settings : Settings
  table : String
  /-- How many sub-spaces are in slots. -/
  active : Nat

def RegistryFacts.describe (f : RegistryFacts) : String :=
  "SpaceRegistry \x7b name: " ++ Quoted.text f.settings.name ++ ", table: " ++
    Quoted.text f.table ++ ", language: " ++ Quoted.text f.settings.language.name ++
    ", register_support: " ++ toString f.settings.contexts ++ " \x7d"

def drop (name : String) : Step Bool := fun s =>
  (.ok (s.registries.get? name).isSome, { s with registries := s.registries.erase name })

/-- Keeps what a registry has become under its name, with its table and the trace. -/
def keep (s : Session) (name : String) (a : Atlas OpenTable) : Session :=
  { s with
    trace := a.trace
    shelf := a.table.shelf
    registries := s.registries.insert name ⟨a.registry, a.table.ref⟩ }

/-- Makes a registry in the place of one of the same name, which is dropped in any case. -/
def build (as : String) (o : Options) (opener : Opener) : Step RegistryFacts := fun s =>
  let s := (s.drop as).2
  let settings := o.settings
  let opened := s.shelf.openBy opener settings.entryTable
  let s := { s with shelf := opened.shelf }.note opened.notices
  match opened.ref with
  | .error e => (.error (.space (.cannotOpen settings.entryTable e)), s)
  | .ok ref =>
    match Atlas.start settings (⟨s.shelf, ref⟩ : OpenTable) s.trace with
    | (.error e, a) => (.error (.space e), { s with trace := a.trace, shelf := a.table.shelf })
    | (.ok (), a) =>
      (.ok ⟨settings, EntryTable.name a.table, a.caches.spaces.length⟩, s.keep as a)

/-! ### Using registries -/

/-- Puts a registry to work. -/
def onRegistry (name : String)
    (act : Atlas OpenTable → Except Failure α × Atlas OpenTable) : Step α := fun s =>
  match s.registries.get? name with
  | none => (.error .noSuchRegistry, s)
  | some m =>
    let (answer, a) := act ⟨m.registry, ⟨s.shelf, m.table⟩, s.trace⟩
    (answer, s.keep name a)

def load (name : String) : Step Bool :=
  onRegistry name fun a => let (r, a) := a.load; ((r.map fun _ => true).mapError .space, a)

def invalidate (name : String) : Step Bool :=
  onRegistry name fun a => let (r, a) := a.invalidate; ((r.map fun _ => true).mapError .space, a)

/-- A sub-space as it is answered, and how often it was told to forget. -/
structure SubSpaceFacts where
  space : SubSpace
  forgets : Nat

/-- Holds on to sub-spaces that are answered. -/
def hold (s : Session) (spaces : List SubSpace) : Session :=
  { s with held := spaces.foldl (fun held x => held.insert x.serial x) s.held }

def facts (s : Session) (x : SubSpace) : SubSpaceFacts := ⟨x, s.trace.factory.forgets x.serial⟩

/-- The place of a register bank among others: by the context and the frame of its entry. -/
def bankOrder (x y : SubSpace) : Bool :=
  (compare (⟨x.slot.entry.context, x.slot.entry.frame⟩ : Bank)
    ⟨y.slot.entry.context, y.slot.entry.frame⟩).isLE

/-- The sub-spaces in memory slots and those in register slots. -/
def active (name : String) : Step (List SubSpaceFacts × List SubSpaceFacts) := fun s =>
  match s.registries.get? name with
  | none => (.error .noSuchRegistry, s)
  | some m =>
    let memory := m.registry.caches.memorySpaces
    let registers := m.registry.caches.registerSpaces.mergeSort bankOrder
    (.ok (memory.map s.facts, registers.map s.facts), s.hold (memory ++ registers))

/-- The ways to ask for a sub-space. -/
inductive Lookup where
  | space (space : SpaceArg)
  | context (context : ContextArg) (frame : UInt32)
  | request (space : SpaceArg) (context : Option ContextArg) (frame : UInt32)
  | frame (frame : BankArg)
  | register (key : BankArg)

/-- The lookup of an atlas that a way of asking comes to. -/
def lookupOf (s : Session) (l : Lookup) (create : Bool) :
    Except Failure (Atlas OpenTable → Answer OpenTable (Option SubSpace)) := do
  match l with
  | .space space =>
    let space ← s.space space
    .ok fun a => a.lookupSpace space create
  | .context context frame =>
    let context ← s.context context
    .ok fun a => a.lookupContext context frame create
  | .request space context frame =>
    let space ← s.space space
    match context with
    | none => .ok fun a => a.lookup ⟨space, none, frame⟩ create
    | some context =>
      let context ← s.context context
      .ok fun a => a.lookup ⟨space, some context, frame⟩ create
  | .frame frame =>
    let frame ← s.stackFrame frame
    .ok fun a => a.lookupFrame frame create
  | .register key =>
    let key ← s.registerKey key
    .ok fun a => a.lookupRegister key create

/-- Asks a registry for a sub-space. -/
def lookup (name : String) (l : Lookup) (create : Bool) : Step (Option SubSpaceFacts) := fun s =>
  match s.registries.get? name with
  | none => (.error .noSuchRegistry, s)
  | some _ =>
    match s.lookupOf l create with
    | .error e => (.error e, s)
    | .ok act =>
      let look : Step (Option SubSpace) := onRegistry name fun a =>
        let (found, a) := act a
        (found.mapError .space, a)
      match look s with
      | (.error e, s) => (.error e, s)
      | (.ok found, s) => (.ok (found.map s.facts), s.hold found.toList)

/-- Asks `n` times over, and answers every answer. -/
def race (name : String) (l : Lookup) (create : Bool) :
    Nat → Step (List (Except Failure (Option SubSpaceFacts)))
  | 0, s => (.ok [], s)
  | n + 1, s =>
    let (answer, s) := s.lookup name l create
    match race name l create n s with
    | (.error e, s) => (.error e, s)
    | (.ok answers, s) => (.ok (answer :: answers), s)

end TraceAtlas.Session
