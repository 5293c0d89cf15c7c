import TraceAtlas.Atlas.Create

/-!
# Filling the slots from the entry table

Every row that can be placed fills a slot: a register slot if it is a register bank of a known
context, else the memory slot of its space. Rows whose space or context is unknown are noted and
passed over. A row that is bound to a sub-space under the entry it still has keeps that sub-space;
for any other row one is built.

`load` does this on top of what is in the slots, and `invalidate` on empty ones, after which every
sub-space in a slot is told to forget what it had read. Bindings of rows that were not placed are
dropped at the end, unless the table could not be read or a row made the load fail.
-/

namespace TraceAtlas.Atlas

variable {σ : Type}

def resolve (a : Atlas σ) (name : String) : Option AddressSpace × Atlas σ :=
  if name = noAddressName then (some .noAddress, a) else a.findSpace name

/-- The sub-space bound to a row, or a new one. -/
def reuseOrBuild (a : Atlas σ) (space : AddressSpace) (context : Option ExecutionContext)
    (key : RowKey) (entry : Entry) : Answer σ (Option Bound) :=
  match a.caches.binding? key entry with
  | some s => (.ok (some ⟨key, entry, s⟩), a)
  | none => a.buildBound space context key entry

/-- Places a row in a slot with `put`, and answers whether a sub-space was there to be placed. -/
def place (a : Atlas σ) (space : AddressSpace) (context : Option ExecutionContext) (key : RowKey)
    (entry : Entry) (put : Caches → Bound → Caches) : Answer σ Bool :=
  match a.reuseOrBuild space context key entry with
  | (.error e, a) => (.error e, a)
  | (.ok none, a) => (.ok false, a)
  | (.ok (some b), a) => (.ok true, a.withCaches (put a.caches b))

/-- Places a row whose space is known, and answers whether it could. -/
def placeIn (a : Atlas σ) (space : AddressSpace) (key : RowKey) (entry : Entry) : Answer σ Bool :=
  if space.isRegister && !a.settings.contexts then
    (.ok false, a.note [.registersNotAllowed entry.space])
  else
    match if space.isRegister then entry.context? else none with
    | none => a.place space none key entry fun c b => c.putMemory space b
    | some contextKey =>
      match a.context? contextKey with
      | none => (.ok false, a.note [.unknownContext contextKey key])
      | some context =>
        a.place space (some context) key entry fun c b =>
          c.putRegister ⟨contextKey, entry.frame⟩ b

/-- Places a row, and answers whether it could. -/
def loadRow (a : Atlas σ) (key : RowKey) (entry : Entry) : Answer σ Bool :=
  match a.resolve entry.space with
  | (none, a) => (.ok false, a.note [.unknownSpace entry.space a.settings.language.name key])
  | (some space, a) => a.placeIn space key entry

/-- Places rows one after the other, and answers the keys of those it could; a refusal ends it. -/
def loadRows (a : Atlas σ) : List Row → Answer σ (List RowKey)
  | [] => (.ok [], a)
  | (key, entry) :: rows =>
    match a.loadRow key entry with
    | (.error e, a) => (.error e, a)
    | (.ok placed, a) =>
      match a.loadRows rows with
      | (.error e, a) => (.error e, a)
      | (.ok keys, a) => (.ok (if placed then key :: keys else keys), a)

/-- Places rows and drops the bindings of all other rows. -/
def fill (a : Atlas σ) (rows : List Row) : Answer σ Unit :=
  match a.loadRows rows with
  | (.error e, a) => (.error e, a)
  | (.ok keys, a) => (.ok (), a.withCaches (a.caches.keepBindings keys))

variable [EntryTable σ]

def readRows (a : Atlas σ) : Answer σ (Option (List Row)) :=
  let (rows, table) := EntryTable.rows a.table
  { a with table }.settle (EntryTable.name table) rows

/-- Reads the entry table and places its rows; a table that cannot be read changes nothing. -/
def loadTable (a : Atlas σ) : Answer σ Unit :=
  match a.readRows with
  | (.error e, a) => (.error e, a)
  | (.ok none, a) => (.ok (), a)
  | (.ok (some rows), a) => a.fill rows

/-- Fills slots from the entry table, on top of what is in them. -/
def load (a : Atlas σ) : Answer σ Unit :=
  let (loaded, a) := a.loadTable
  (loaded, a.report)

/-- Empties the slots and has the entry table look again. -/
def clear (a : Atlas σ) : Atlas σ :=
  { a with
    table := EntryTable.invalidate a.table
    registry := { a.registry with caches := a.caches.clearSlots, byObject := .empty } }

/-- Tells every sub-space in a slot to forget what it has read. -/
def forgetAll (a : Atlas σ) : Atlas σ :=
  { a with trace := { a.trace with factory := a.trace.factory.forget a.caches.spaces } }

/-- Empties the slots and fills them anew from the entry table. -/
def invalidate (a : Atlas σ) : Answer σ Unit :=
  match a.clear.loadTable with
  | (.error e, a) => (.error e, a.report)
  | (.ok (), a) => (.ok (), a.forgetAll.report)

/-- A registry as it comes into being on an entry table, loaded at once if it is eager. -/
def start (settings : Settings) (table : σ) (trace : Trace) : Answer σ Unit :=
  let a : Atlas σ := ⟨⟨settings, {}, .empty, []⟩, table, trace⟩
  if settings.eager then a.load else (.ok (), a)

end TraceAtlas.Atlas
