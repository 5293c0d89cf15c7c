import TraceAtlas.Atlas.Object

/-!
# Looking sub-spaces up

A caller names a sub-space by its address space (`lookupSpace`), by a frame of a context
(`lookupContext`), by a stack frame (`lookupFrame`), by a register key (`lookupRegister`), or by a
request that is one of the first two (`lookup`). Each lookup answers the sub-space, or nothing, or a
refusal; with `create` it makes what is missing.

Errors of tables met on the way that do not concern the caller are reported when the lookup is done
with the caches.
-/

namespace TraceAtlas.Atlas

variable {σ : Type} [EntryTable σ]

/-- The sub-space of a memory, register or no-address space. -/
def lookupSpace (a : Atlas σ) (space : AddressSpace) (create : Bool) :
    Answer σ (Option SubSpace) :=
  match a.check space with
  | (.error e, a) => (.error e, a)
  | (.ok (), a) =>
    if create then
      let (found, a) := a.memoryOrCreate space
      (found, a.report)
    else (.ok (a.caches.memory.get? space), a)

def bank (a : Atlas σ) (context : ExecutionContext) (frame : UInt32) (create : Bool) :
    Answer σ (Option SubSpace) :=
  if create then a.bankOrCreate context frame
  else (.ok (a.caches.registers.get? ⟨context.key, frame⟩), a)

def lookupRegister (a : Atlas σ) (key : RegisterKey) (create : Bool) :
    Answer σ (Option SubSpace) :=
  if !a.settings.contexts then (.ok none, a.note [.registersDisabled a.settings.name key])
  else
    let (found, a) := match key with
      | .frame context level => a.bank context level create
      | .object object level => a.throughObject object level create
    (found, a.report)

/-- How the register bank of a frame is identified in this trace. -/
def registerKey (a : Atlas σ) (context : ExecutionContext) (frame : UInt32) :
    Except SpaceError RegisterKey :=
  if a.hasSchema then
    match context.object with
    | some object => .ok (.object object frame)
    | none => .error (.contextWithoutObject context.key)
  else .ok (.frame context frame)

def lookupContext (a : Atlas σ) (context : ExecutionContext) (frame : UInt32) (create : Bool) :
    Answer σ (Option SubSpace) :=
  if !a.settings.contexts then (.ok none, a.note [.noContexts context.key a.settings.name])
  else if !ContextDirectory.owns a.trace.contexts context then (.error (.notMine context.key), a)
  else
    match a.registerKey context frame with
    | .error e => (.error e, a)
    | .ok key => a.lookupRegister key create

/-- The register bank of a stack frame. An object that stands for a frame is searched from level 0,
since it is of one frame only. -/
def lookupFrame (a : Atlas σ) (frame : StackFrame) (create : Bool) : Answer σ (Option SubSpace) :=
  match frame with
  | .object object => a.lookupRegister (.object object 0) create
  | .level context level => a.lookupContext context level create

def lookup (a : Atlas σ) (request : SpaceRequest) (create : Bool) : Answer σ (Option SubSpace) :=
  match request.context with
  | some context => a.lookupContext context request.frame create
  | none => a.lookupSpace request.space create

end TraceAtlas.Atlas
