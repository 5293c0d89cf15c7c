import TraceAtlas.Proofs.Run
import TraceAtlas.Session.Registries

/-!
# Every table error is accounted for

`Atlas.met` lists the errors that a call meets, in the order in which it meets them: it says which
requests the call makes to its table, to the factory and to the directory, and asks what these
answer. What becomes of an error plays no part in it. `Accounted` then says what does become of the
errors: those of the schema are the caller's, all others are handed to whoever is to be told,
exactly once and before the call ends, and nothing is left over for a later call.

Inside a call errors are put aside until the slots are as the call leaves them. `Met` is what holds
until then: nobody was told yet, and what is put aside is what was met. It is put together along the
sections of a call (`Met.trans`) and settled at the end (`Met.report`).
-/

namespace TraceAtlas

/-- The table errors that notices tell of. -/
def failures (notices : List Notice) : List TableError :=
  notices.filterMap fun
    | .tableFailed e => some e
    | _ => none

@[simp] theorem failures_append (notices more : List Notice) :
    failures (notices ++ more) = failures notices ++ failures more := List.filterMap_append

@[simp] theorem failures_tableFailed (errors : List TableError) :
    failures (errors.map .tableFailed) = errors := by
  simp [failures, List.filterMap_map]

/-- The errors that are not the caller's. -/
def harmless (errors : List TableError) : List TableError := errors.filter fun e => !e.isVersion

def refusal {α : Type} : Except SpaceError α → Option SpaceError
  | .ok _ => none
  | .error e => some e

def errorOf {α : Type} : Except TableError α → List TableError
  | .ok _ => []
  | .error e => [e]

theorem errorOf_map {α β : Type} (f : α → β) (r : Except TableError α) :
    errorOf (r.map f) = errorOf r := by
  cases r <;> rfl

namespace Atlas

variable {σ : Type}

/-! ## The errors that a call meets -/

section Errors

/-- Errors of the factory when it builds the sub-space of a row. -/
def buildErrors (a : Atlas σ) (space : AddressSpace) (context : Option ExecutionContext)
    (key : RowKey) (entry : Entry) : List TableError :=
  errorOf (a.trace.factory.build space context (a.slotOf space key entry)).1

/-- Errors of placing a row: one for which nothing is bound has its sub-space built. -/
def rowErrors (a : Atlas σ) (key : RowKey) (entry : Entry) : List TableError :=
  match a.target? entry with
  | none => []
  | some t =>
    match a.caches.binding? key entry with
    | some _ => []
    | none => a.buildErrors t.space t.context key entry

/-- Errors of placing rows one after the other, up to a refusal. -/
def rowsErrors (a : Atlas σ) : List Row → List TableError
  | [] => []
  | (key, entry) :: rows =>
    a.rowErrors key entry ++
      match a.loadRow key entry with
      | (.error _, _) => []
      | (.ok _, a) => a.rowsErrors rows

variable [EntryTable σ]

def tableErrors (a : Atlas σ) : List TableError :=
  match EntryTable.rows a.table with
  | (.error e, _) => [e]
  | (.ok rows, table) => { a with table }.rowsErrors rows

/-- Errors of a new row: of the table, or else of the factory. -/
def createErrors (a : Atlas σ) (space : AddressSpace) (context : Option ExecutionContext)
    (entry : Entry) : List TableError :=
  match (EntryTable.create entry a.table).1 with
  | .error e => [e]
  | .ok key => a.buildErrors space context key entry

def fillErrors (a : Atlas σ) (t : Target) : List TableError :=
  match a.caches.at? t.slot with
  | some _ => []
  | none => a.createErrors t.space t.context t.entry

def spaceErrors (a : Atlas σ) (space : AddressSpace) : List TableError :=
  if a.trace.directory.vouchesFor space && space.isKeepable then a.fillErrors (.ofSpace space)
  else []

/-- Errors of the slot of a container: of its overlay, or else of the slot. -/
def containerErrors (a : Atlas σ) (container : ObjectRef) : List TableError :=
  let minted := a.trace.directory.overlay container.path.text a.settings.language.registerSpace
  match minted.space with
  | .error e => [e]
  | .ok space =>
    { a with trace := { a.trace with directory := minted.directory } }.spaceErrors space

def objectErrors (a : Atlas σ) (object : ObjectRef) (frame : UInt32) : List TableError :=
  match a.objectHit object frame, a.container? object frame with
  | none, some container => a.containerErrors container
  | _, _ => []

def registerErrors (a : Atlas σ) : RegisterKey → List TableError
  | .frame context level =>
    if a.settings.contexts then
      a.fillErrors (.ofBank a.settings.language.registerSpace context level)
    else []
  | .object object level => if a.settings.contexts then a.objectErrors object level else []

def contextErrors (a : Atlas σ) (context : ExecutionContext) (frame : UInt32) : List TableError :=
  if ContextDirectory.owns a.trace.contexts context then
    match a.registerKey context frame with
    | .error _ => []
    | .ok key => a.registerErrors key
  else []

/-- Errors of a lookup that may create. -/
def queryErrors (a : Atlas σ) : Query → List TableError
  | .request ⟨space, none, _⟩ => a.spaceErrors space
  | .request ⟨_, some context, frame⟩ => a.contextErrors context frame
  | .space space => a.spaceErrors space
  | .context context frame => a.contextErrors context frame
  | .frame (.object object) => a.registerErrors (.object object 0)
  | .frame (.level context level) => a.contextErrors context level
  | .register key => a.registerErrors key

/-- The errors that a call meets, in the order in which it meets them. -/
def met (a : Atlas σ) : Call → List TableError
  | .ask q create => if create then a.queryErrors q else []
  | .load => a.tableErrors
  | .invalidate => a.clear.tableErrors

/-- The refusal that a call answers, if it does. -/
def refusal? (a : Atlas σ) : Call → Option SpaceError
  | .ask q create => refusal (a.ask q create).1
  | .load => refusal a.load.1
  | .invalidate => refusal a.invalidate.1

end Errors

/-! ## What becomes of the errors -/

/-- How the errors that were met decide a refusal. -/
inductive Verdict : List TableError → Option SpaceError → Prop
  /-- No schema is at fault. There may be a refusal, for what the caller named. -/
  | passed {errors : List TableError} {r : Option SpaceError}
      (harmless : ∀ e ∈ errors, e.isVersion = false)
      (other : ∀ table e, r ≠ some (.schema table e)) : Verdict errors r
  /-- The last error is one of the schema, and the caller's. -/
  | schema {before : List TableError} {e : TableError} (table : String)
      (harmless : ∀ e ∈ before, e.isVersion = false) (version : e.isVersion = true) :
      Verdict (before ++ [e]) (some (.schema table e))

/-- What a call makes of the errors it met on `a`, when it is refused or not and leaves `b`. -/
structure Accounted (a : Atlas σ) (errors : List TableError) (r : Option SpaceError)
    (b : Atlas σ) : Prop where
  verdict : Verdict errors r
  /-- Nothing is left over for a later call. -/
  settled : b.registry.deferred = []
  /-- A hook that records is told of each error once, in the order in which they were met, and finds
  the slots and bindings as the call leaves them. -/
  recorded : a.settings.hook = .record →
    b.trace.reports = a.trace.reports ++ (harmless errors).map (⟨·, b.caches⟩) ∧
      failures b.trace.notices = failures a.trace.notices
  noted : a.settings.hook = .note →
    b.trace.reports = a.trace.reports ∧
      failures b.trace.notices = failures a.trace.notices ++ harmless errors

/-- What a section of a call makes of the errors it met: nobody is told yet. -/
structure Met (a : Atlas σ) (errors : List TableError) (r : Option SpaceError) (b : Atlas σ) :
    Prop where
  verdict : Verdict errors r
  settings : b.settings = a.settings
  reports : b.trace.reports = a.trace.reports
  failures : failures b.trace.notices = failures a.trace.notices
  deferred : b.registry.deferred = a.registry.deferred ++ harmless errors

variable {a b c : Atlas σ} {errors more : List TableError} {r : Option SpaceError}

theorem Verdict.harmless_of_none (h : Verdict errors none) : ∀ e ∈ errors, e.isVersion = false := by
  cases h with
  | passed harmless other => exact harmless

/-- An error of the schema is what the caller is told of. -/
theorem Verdict.of_version (h : Verdict errors r) {e : TableError} (he : e ∈ errors)
    (hversion : e.isVersion = true) : ∃ table, r = some (.schema table e) := by
  cases h with
  | passed harmless other =>
      rw [harmless e he] at hversion
      cases hversion
  | schema table harmless version =>
      rcases List.mem_append.mp he with he | he
      · rw [harmless e he] at hversion
        cases hversion
      · rw [List.mem_singleton.mp he]
        exact ⟨table, rfl⟩

theorem Verdict.append (h : Verdict errors none) (h' : Verdict more r) :
    Verdict (errors ++ more) r := by
  have hall := h.harmless_of_none
  cases h' with
  | passed harmless other => exact .passed (List.forall_mem_append.mpr ⟨hall, harmless⟩) other
  | schema table harmless version =>
      rw [← List.append_assoc]
      exact .schema table (List.forall_mem_append.mpr ⟨hall, harmless⟩) version

namespace Met

/-- Where nothing is met, nothing is put aside. -/
theorem of_nothing (settings : b.settings = a.settings)
    (reports : b.trace.reports = a.trace.reports)
    (failures : TraceAtlas.failures b.trace.notices = TraceAtlas.failures a.trace.notices)
    (deferred : b.registry.deferred = a.registry.deferred)
    (other : ∀ table e, r ≠ some (.schema table e)) : Met a [] r b :=
  ⟨.passed (by simp) other, settings, reports, failures, by simp [deferred, harmless]⟩

theorem refl (a : Atlas σ) : Met a [] none a := of_nothing rfl rfl rfl rfl (by simp)

/-- One section after another that was not refused. -/
theorem trans (h : Met a errors none b) (h' : Met b more r c) : Met a (errors ++ more) r c where
  verdict := h.verdict.append h'.verdict
  settings := h'.settings.trans h.settings
  reports := h'.reports.trans h.reports
  failures := h'.failures.trans h.failures
  deferred := by
    rw [h'.deferred, h.deferred, harmless, harmless, harmless, List.filter_append,
      List.append_assoc]

theorem trans_nothing (h : Met a [] none b) (h' : Met b errors r c) : Met a errors r c :=
  h.trans h'

theorem then_nothing (h : Met a errors none b) (h' : Met b [] r c) : Met a errors r c := by
  have := h.trans h'
  rwa [List.append_nil] at this

end Met

/-! ## Sections of a call -/

theorem met_settle {α : Type} (a : Atlas σ) (table : String) (r : Except TableError α) :
    Met a (errorOf r) (refusal (a.settle table r).1) (a.settle table r).2 := by
  cases r with
  | ok x => exact .refl a
  | error e =>
      cases hversion : e.isVersion with
      | true =>
          have hverdict : Verdict ([] ++ [e]) (some (.schema table e)) :=
            .schema table (by simp) hversion
          simp only [settle, hversion, if_true]
          exact ⟨hverdict, rfl, rfl, rfl, by simp [harmless, errorOf, hversion]⟩
      | false =>
          have hverdict : Verdict [e] none := .passed (by simpa using hversion) (by simp)
          simp only [settle, hversion]
          exact ⟨hverdict, rfl, rfl, rfl, by simp [harmless, errorOf, hversion]⟩

theorem met_note (a : Atlas σ) {notices : List Notice} (h : failures notices = []) :
    Met a [] none (a.note notices) :=
  .of_nothing rfl rfl (by simp [note, h]) rfl (by simp)

theorem met_check (a : Atlas σ) (space : AddressSpace) :
    Met a [] (refusal (a.check space).1) (a.check space).2 := by
  unfold check
  dsimp only
  split
  · exact .of_nothing rfl rfl rfl rfl (by simp [refusal])
  · split <;> exact .of_nothing rfl rfl rfl rfl (by simp [refusal])

theorem met_findSpace (a : Atlas σ) (name : String) : Met a [] none (a.findSpace name).2 :=
  .of_nothing rfl rfl rfl rfl (by simp)

theorem met_container (a : Atlas σ) (object : ObjectRef) (frame : UInt32) :
    Met a [] none (a.container object frame).2 := by
  unfold container
  dsimp only
  split
  · exact .refl a
  · split
    · exact .refl a
    · exact .of_nothing rfl rfl rfl rfl (by simp)

theorem met_buildBound (a : Atlas σ) (space : AddressSpace) (context : Option ExecutionContext)
    (key : RowKey) (entry : Entry) :
    Met a (a.buildErrors space context key entry) (refusal (a.buildBound space context key entry).1)
      (a.buildBound space context key entry).2 := by
  unfold buildBound build buildErrors
  dsimp only
  generalize a.trace.factory.build space context (a.slotOf space key entry) = answer
  obtain ⟨built, factory⟩ := answer
  dsimp only
  rw [← errorOf_map fun s => (⟨key, entry, s⟩ : Bound)]
  refine .trans_nothing ?_ (met_settle _ _ _)
  exact .of_nothing rfl rfl rfl rfl (by simp)

/-! ### Loads -/

theorem met_place (a : Atlas σ) (t : Target) (key : RowKey) (entry : Entry)
    (target : a.target? entry = some t) (put : Caches → Bound → Caches) :
    Met a (a.rowErrors key entry) (refusal (a.place t.space t.context key entry put).1)
      (a.place t.space t.context key entry put).2 := by
  unfold place reuseOrBuild rowErrors
  simp only [target]
  cases hbound : a.caches.binding? key entry with
  | some x => exact .of_nothing rfl rfl rfl rfl (by simp [refusal])
  | none =>
      have hbuild := met_buildBound a t.space t.context key entry
      dsimp only
      revert hbuild
      generalize a.buildBound t.space t.context key entry = answer
      obtain ⟨r, b⟩ := answer
      intro hbuild
      rcases r with e | _ | x
      · exact hbuild
      · exact hbuild
      · exact hbuild.then_nothing (.of_nothing rfl rfl rfl rfl (by simp [refusal]))

theorem rowErrors_of_homeless {key : RowKey} {entry : Entry} (h : a.target? entry = none) :
    a.rowErrors key entry = [] := by
  unfold rowErrors
  rw [h]

theorem met_placeIn (a : Atlas σ) {space : AddressSpace} (key : RowKey) (entry : Entry)
    (hspace : a.resolve? entry.space = some space) :
    Met a (a.rowErrors key entry) (refusal (a.placeIn space key entry).1)
      (a.placeIn space key entry).2 := by
  unfold placeIn
  split
  · next h =>
      obtain ⟨hregister, hcontexts⟩ : space.isRegister = true ∧ a.settings.contexts = false := by
        simpa using h
      rw [rowErrors_of_homeless (by simp [target?, hspace, hregister, hcontexts])]
      exact met_note a rfl
  · next h =>
      by_cases hregister : space.isRegister = true
      · have hcontexts : a.settings.contexts = true := by simpa [hregister] using h
        rw [if_pos hregister]
        split
        · next hcontext =>
            apply met_place a ⟨space, none, .memory space⟩
            simp [target?, hspace, hregister, hcontexts, hcontext]
        · next contextKey hcontext =>
            cases hknown : a.context? contextKey with
            | none =>
                rw [rowErrors_of_homeless
                  (by simp [target?, hspace, hregister, hcontexts, hcontext, hknown])]
                exact met_note a rfl
            | some context =>
                apply met_place a ⟨space, some context, .register ⟨contextKey, entry.frame⟩⟩
                simp [target?, hspace, hregister, hcontexts, hcontext, hknown]
      · rw [if_neg hregister]
        apply met_place a ⟨space, none, .memory space⟩
        simp [target?, hspace, hregister]

theorem rowErrors_of_idle (h : Idle a b) (key : RowKey) (entry : Entry) :
    b.rowErrors key entry = a.rowErrors key entry := by
  unfold rowErrors buildErrors slotOf
  rw [h.target?_eq, h.caches, h.factory, h.settings]

theorem met_loadRow (a : Atlas σ) (key : RowKey) (entry : Entry) :
    Met a (a.rowErrors key entry) (refusal (a.loadRow key entry).1) (a.loadRow key entry).2 := by
  have hidle : Idle a (a.resolve entry.space).2 := by
    unfold resolve
    split
    · exact .refl a
    · exact idle_findSpace a entry.space
  have hmet : Met a [] none (a.resolve entry.space).2 := by
    unfold resolve
    split
    · exact .refl a
    · exact met_findSpace a entry.space
  have hfst : (a.resolve entry.space).1 = a.resolve? entry.space := by
    unfold resolve resolve?
    split <;> rfl
  unfold loadRow
  revert hidle hmet hfst
  generalize a.resolve entry.space = found
  obtain ⟨found, b⟩ := found
  intro hidle hmet hfst
  rw [← rowErrors_of_idle hidle key entry]
  have hresolve : b.resolve? entry.space = found :=
    (hidle.toSameWorld.resolve?_eq entry.space).trans hfst.symm
  cases found with
  | none =>
      rw [rowErrors_of_homeless (by simp [target?, hresolve])]
      exact hmet.trans_nothing (met_note b rfl)
  | some space => exact hmet.trans_nothing (met_placeIn b key entry hresolve)

theorem met_loadRows (a : Atlas σ) (rows : List Row) :
    Met a (a.rowsErrors rows) (refusal (a.loadRows rows).1) (a.loadRows rows).2 := by
  induction rows generalizing a with
  | nil => exact .refl a
  | cons row rows ih =>
      obtain ⟨key, entry⟩ := row
      have hrow := met_loadRow a key entry
      unfold loadRows rowsErrors
      revert hrow
      generalize a.loadRow key entry = answer
      obtain ⟨r, b⟩ := answer
      intro hrow
      cases r with
      | error e =>
          dsimp only
          rw [List.append_nil]
          exact hrow
      | ok placed =>
          have hrows := ih b
          dsimp only
          revert hrows
          generalize b.loadRows rows = answer
          obtain ⟨r, c⟩ := answer
          intro hrows
          cases r <;> exact hrow.trans hrows

section Calls

variable [EntryTable σ]

theorem met_loadTable (a : Atlas σ) :
    Met a a.tableErrors (refusal a.loadTable.1) a.loadTable.2 := by
  unfold loadTable readRows tableErrors
  rcases EntryTable.rows a.table with ⟨read, table⟩
  dsimp only
  have hsettle := met_settle { a with table } (EntryTable.name table) read
  have hread : Met a [] none { a with table } := .of_nothing rfl rfl rfl rfl (by simp)
  cases read with
  | error e =>
      -- An error of the schema is answered at once, any other ends the load without an answer.
      cases hversion : e.isVersion <;> simp only [settle, hversion] at hsettle ⊢ <;>
        exact hread.trans_nothing hsettle
  | ok rows =>
      have hrows := met_loadRows { a with table } rows
      unfold fill
      dsimp only [settle]
      revert hrows
      generalize loadRows { a with table } rows = answer
      obtain ⟨r, b⟩ := answer
      intro hrows
      cases r with
      | error e => exact hread.trans_nothing hrows
      | ok keys =>
          refine hread.trans_nothing (hrows.then_nothing ?_)
          exact .of_nothing rfl rfl rfl rfl (by simp [refusal])

/-! ### Lookups -/

theorem met_createBound (a : Atlas σ) (space : AddressSpace) (context : Option ExecutionContext)
    (entry : Entry) :
    Met a (a.createErrors space context entry) (refusal (a.createBound space context entry).1)
      (a.createBound space context entry).2 := by
  unfold createBound createErrors
  rcases EntryTable.create entry a.table with ⟨created, table⟩
  have hcreate : Met a [] none { a with table } := .of_nothing rfl rfl rfl rfl (by simp)
  cases created with
  | error e =>
      exact hcreate.trans_nothing (met_settle _ _ (.error e : Except TableError Bound))
  | ok key =>
      dsimp only
      refine hcreate.trans_nothing (.trans_nothing (met_note _ ?_) (met_buildBound _ _ _ _ _))
      rfl

theorem met_fillSlot (a : Atlas σ) (t : Target) :
    Met a (a.fillErrors t) (refusal (a.fillSlot t).1) (a.fillSlot t).2 := by
  unfold fillSlot fillErrors
  cases a.caches.at? t.slot with
  | some x => exact .refl a
  | none =>
      have hcreate := met_createBound a t.space t.context t.entry
      dsimp only
      revert hcreate
      generalize a.createBound t.space t.context t.entry = answer
      obtain ⟨r, b⟩ := answer
      intro hcreate
      rcases r with e | _ | x
      · exact hcreate
      · exact hcreate
      · exact hcreate.then_nothing (.of_nothing rfl rfl rfl rfl (by simp [refusal]))

theorem fillErrors_of_idle (h : Idle a b) (t : Target) : b.fillErrors t = a.fillErrors t := by
  unfold fillErrors createErrors buildErrors slotOf
  rw [h.caches, h.table, h.factory, h.settings]

theorem spaceErrors_of_check {space : AddressSpace} (h : (a.check space).1 = .ok ()) :
    a.spaceErrors space = (a.check space).2.fillErrors (.ofSpace space) := by
  obtain ⟨hvouches, hkeepable⟩ := (check_eq_ok_iff a space).mp h
  rw [fillErrors_of_idle (idle_check a space)]
  simp [spaceErrors, hvouches, hkeepable]

theorem spaceErrors_of_refused {space : AddressSpace} {e : SpaceError}
    (h : (a.check space).1 = .error e) : a.spaceErrors space = [] := by
  unfold spaceErrors
  rw [if_neg]
  intro hadmits
  have hok := (check_eq_ok_iff a space).mpr (Bool.and_eq_true_iff.mp hadmits)
  rw [h] at hok
  cases hok

theorem met_filledForContainer (a : Atlas σ) (container : ObjectRef) :
    Met a (a.containerErrors container) (refusal (a.filledForContainer container).1)
      (a.filledForContainer container).2 := by
  unfold filledForContainer overlay containerErrors
  have hnotices : failures
      (a.trace.directory.overlay container.path.text a.settings.language.registerSpace).notices =
        [] := by
    unfold Directory.overlay
    split
    · rfl
    · split
      · rfl
      · split <;> rfl
  revert hnotices
  generalize a.trace.directory.overlay container.path.text a.settings.language.registerSpace =
    minted
  obtain ⟨minted, directory, notices⟩ := minted
  intro hnotices
  dsimp only at hnotices ⊢
  have hnote : Met a [] none
      (note { a with trace := { a.trace with directory } } notices) := by
    refine .trans_nothing ?_ (met_note _ hnotices)
    exact .of_nothing rfl rfl rfl rfl (by simp)
  cases minted with
  | error e =>
      have hsettle := met_settle (note { a with trace := { a.trace with directory } } notices)
        container.path.text (.error e : Except TableError AddressSpace)
      cases hversion : e.isVersion <;> simp only [settle, hversion] at hsettle ⊢ <;>
        exact hnote.trans_nothing hsettle
  | ok space =>
      refine hnote.trans_nothing ?_
      dsimp only [settle]
      generalize hb : note { a with trace := { a.trace with directory } } notices = b
      have herrors : spaceErrors { a with trace := { a.trace with directory } } space =
          b.spaceErrors space := by
        rw [← hb]
        rfl
      have hcheck := met_check b space
      have hok := @spaceErrors_of_check σ b _ space
      have hrefused := @spaceErrors_of_refused σ b _ space
      rw [herrors]
      revert hcheck hok hrefused
      generalize b.check space = answer
      obtain ⟨r, c⟩ := answer
      intro hcheck hok hrefused
      cases r with
      | error e =>
          rw [hrefused rfl]
          exact hcheck
      | ok u =>
          rw [hok rfl]
          exact hcheck.trans_nothing (met_fillSlot c (.ofSpace space))

omit [EntryTable σ] in
theorem met_heldByContainer (a : Atlas σ) (container : ObjectRef) :
    Met a [] (refusal (a.heldByContainer container).1) (a.heldByContainer container).2 := by
  have hfind := met_findSpace a container.path.text
  unfold heldByContainer
  revert hfind
  generalize a.findSpace container.path.text = answer
  obtain ⟨found, b⟩ := answer
  intro hfind
  cases found with
  | none => exact hfind
  | some space =>
      have hcheck := met_check b space
      dsimp only
      revert hcheck
      generalize b.check space = answer
      obtain ⟨r, c⟩ := answer
      intro hcheck
      cases r <;> exact hfind.trans_nothing hcheck

theorem met_containerSpace (a : Atlas σ) (container : ObjectRef) (create : Bool) :
    Met a (if create then a.containerErrors container else [])
      (refusal (a.containerSpace container create).1) (a.containerSpace container create).2 := by
  cases create with
  | false => exact met_heldByContainer a container
  | true => exact met_filledForContainer a container

theorem containerErrors_container (a : Atlas σ) (object container : ObjectRef) (frame : UInt32) :
    (a.container object frame).2.containerErrors container = a.containerErrors container := by
  unfold Atlas.container
  dsimp only
  split
  · rfl
  · split <;> rfl

theorem met_throughObject (a : Atlas σ) (object : ObjectRef) (frame : UInt32) (create : Bool) :
    Met a (if create then a.objectErrors object frame else [])
      (refusal (a.throughObject object frame create).1)
      (a.throughObject object frame create).2 := by
  unfold throughObject objectErrors
  cases hhit : a.objectHit object frame with
  | some x =>
      rw [ite_self]
      exact .refl a
  | none =>
      have herrors := fun container => containerErrors_container a object container frame
      have hmet := met_container a object frame
      rw [← container_fst]
      dsimp only
      revert herrors hmet
      generalize a.container object frame = answer
      obtain ⟨found, b⟩ := answer
      intro herrors hmet
      cases found with
      | none =>
          rw [ite_self]
          exact hmet
      | some container =>
          have hspace := met_containerSpace b container create
          rw [herrors] at hspace
          dsimp only
          revert hspace
          generalize b.containerSpace container create = answer
          obtain ⟨r, c⟩ := answer
          intro hspace
          have hspace := hmet.trans_nothing hspace
          rcases r with e | _ | x
          · exact hspace
          · exact hspace
          · exact hspace.then_nothing (.of_nothing rfl rfl rfl rfl (by simp [refusal]))

/-! ## Whole calls -/

omit [EntryTable σ] in
/-- What was put aside is reported at the end, and that is what was met. -/
theorem Met.report (h : Met a errors r b) (hempty : a.registry.deferred = []) :
    Accounted a errors r b.report := by
  have hdeferred : b.registry.deferred = harmless errors := by
    rw [h.deferred, hempty, List.nil_append]
  unfold Atlas.report
  dsimp only
  rw [hdeferred]
  split
  · next hhook =>
      have hhook : a.settings.hook = .note := h.settings ▸ hhook
      refine ⟨h.verdict, rfl, ?_, fun _ => ⟨h.reports, ?_⟩⟩
      · intro hrecord
        rw [hhook] at hrecord
        cases hrecord
      · simp [note, h.failures]
  · next hhook =>
      have hhook : a.settings.hook = .record := h.settings ▸ hhook
      refine ⟨h.verdict, rfl, fun _ => ⟨?_, h.failures⟩, ?_⟩
      · rw [← h.reports]
        rfl
      · intro hnote
        rw [hhook] at hnote
        cases hnote

omit [EntryTable σ] in
theorem Met.of_silence (h : Met a [] r b) (hempty : a.registry.deferred = []) :
    Accounted a [] r b where
  verdict := h.verdict
  settled := by rw [h.deferred, hempty]; rfl
  recorded _ := ⟨by simp [h.reports, harmless], h.failures⟩
  noted _ := ⟨h.reports, by simp [h.failures, harmless]⟩

theorem accounted_lookupSpace (hempty : a.registry.deferred = []) (space : AddressSpace)
    (create : Bool) :
    Accounted a (if create then a.spaceErrors space else [])
      (refusal (a.lookupSpace space create).1) (a.lookupSpace space create).2 := by
  have hcheck := met_check a space
  have hok := @spaceErrors_of_check σ a _ space
  have hrefused := @spaceErrors_of_refused σ a _ space
  unfold lookupSpace
  revert hcheck hok hrefused
  generalize a.check space = answer
  obtain ⟨r, b⟩ := answer
  intro hcheck hok hrefused
  cases r with
  | error e =>
      rw [hrefused rfl, ite_self]
      exact hcheck.of_silence hempty
  | ok u =>
      cases create with
      | false => exact hcheck.of_silence hempty
      | true =>
          rw [if_pos rfl, hok rfl]
          exact (hcheck.trans_nothing (met_fillSlot b (.ofSpace space))).report hempty

theorem met_bank (a : Atlas σ) (context : ExecutionContext) (frame : UInt32) (create : Bool) :
    Met a (if create then a.fillErrors (.ofBank a.settings.language.registerSpace context frame)
        else [])
      (refusal (a.bank context frame create).1) (a.bank context frame create).2 := by
  cases create with
  | false => exact .refl a
  | true => exact met_fillSlot a (.ofBank a.settings.language.registerSpace context frame)

theorem accounted_lookupRegister (hempty : a.registry.deferred = []) (key : RegisterKey)
    (create : Bool) :
    Accounted a (if create then a.registerErrors key else [])
      (refusal (a.lookupRegister key create).1) (a.lookupRegister key create).2 := by
  unfold lookupRegister registerErrors
  by_cases hcontexts : a.settings.contexts = true
  · simp only [hcontexts, Bool.not_true, Bool.false_eq_true, if_true, if_false]
    cases key with
    | frame context level => exact (met_bank a context level create).report hempty
    | object object level => exact (met_throughObject a object level create).report hempty
  · simp only [hcontexts, Bool.not_false, if_true]
    have hnote : Met a [] none (a.note [.registersDisabled a.settings.name key]) := met_note a rfl
    cases key <;> simpa [refusal] using hnote.of_silence hempty

omit [EntryTable σ] in
theorem accounted_refused (hempty : a.registry.deferred = []) {e : SpaceError}
    (h : ∀ table error, e ≠ .schema table error) : Accounted a [] (some e) a :=
  (Met.of_nothing rfl rfl rfl rfl (by simpa using h)).of_silence hempty

omit [EntryTable σ] in
theorem registerKey_ne_schema {context : ExecutionContext} {frame : UInt32} {table : String}
    {e : TableError} : a.registerKey context frame ≠ .error (.schema table e) := by
  unfold registerKey
  split
  · split <;> simp
  · simp

theorem accounted_lookupContext (hempty : a.registry.deferred = []) (context : ExecutionContext)
    (frame : UInt32) (create : Bool) :
    Accounted a (if create then a.contextErrors context frame else [])
      (refusal (a.lookupContext context frame create).1)
      (a.lookupContext context frame create).2 := by
  unfold lookupContext contextErrors
  by_cases hcontexts : a.settings.contexts = true
  · simp only [hcontexts, Bool.not_true, Bool.false_eq_true, if_false]
    by_cases howns : ContextDirectory.owns a.trace.contexts context = true
    · simp only [howns, Bool.not_true, Bool.false_eq_true, if_true, if_false]
      cases hkey : a.registerKey context frame with
      | error e =>
          dsimp only
          rw [ite_self]
          refine accounted_refused hempty ?_
          rintro table error rfl
          exact registerKey_ne_schema hkey
      | ok key => exact accounted_lookupRegister hempty key create
    · simp only [howns, Bool.not_false, if_true, Bool.false_eq_true, if_false, ite_self]
      exact accounted_refused hempty (by simp)
  · have hnone : a.contextErrors context frame = [] := by
      have hregister : ∀ key, a.registerErrors key = [] := by
        intro key
        cases key <;> simp [registerErrors, hcontexts]
      unfold contextErrors
      split
      · split <;> simp [hregister]
      · rfl
    have hnote : Met a [] none (a.note [.noContexts context.key a.settings.name]) := met_note a rfl
    change Accounted a (if create then a.contextErrors context frame else []) _ _
    simp only [hnone, hcontexts, Bool.not_false, if_true, ite_self]
    exact hnote.of_silence hempty

theorem accounted_ask (hempty : a.registry.deferred = []) (q : Query) (create : Bool) :
    Accounted a (if create then a.queryErrors q else []) (refusal (a.ask q create).1)
      (a.ask q create).2 := by
  cases q with
  | request request =>
      obtain ⟨space, context, frame⟩ := request
      cases context with
      | none => exact accounted_lookupSpace hempty space create
      | some context => exact accounted_lookupContext hempty context frame create
  | space space => exact accounted_lookupSpace hempty space create
  | context context frame => exact accounted_lookupContext hempty context frame create
  | frame frame =>
      cases frame with
      | object object => exact accounted_lookupRegister hempty (.object object 0) create
      | level context level => exact accounted_lookupContext hempty context level create
  | register key => exact accounted_lookupRegister hempty key create

theorem accounted_load (hempty : a.registry.deferred = []) :
    Accounted a a.tableErrors (refusal a.load.1) a.load.2 :=
  (met_loadTable a).report hempty

theorem accounted_invalidate (hempty : a.registry.deferred = []) :
    Accounted a a.clear.tableErrors (refusal a.invalidate.1) a.invalidate.2 := by
  have hload := met_loadTable a.clear
  have hclear : Met a [] none a.clear := .of_nothing rfl rfl rfl rfl (by simp)
  unfold invalidate
  revert hload
  generalize a.clear.loadTable = answer
  obtain ⟨r, b⟩ := answer
  intro hload
  have hload := hclear.trans_nothing hload
  cases r with
  | error e => exact hload.report hempty
  | ok u =>
      refine (hload.then_nothing ?_).report hempty
      exact .of_nothing rfl rfl rfl rfl (by simp [refusal])

/-- Every call accounts for the errors that it meets. -/
theorem accounted_perform (hempty : a.registry.deferred = []) (call : Call) :
    Accounted a (a.met call) (a.refusal? call) (a.perform call) := by
  cases call with
  | ask q create => exact accounted_ask hempty q create
  | load => exact accounted_load hempty
  | invalidate => exact accounted_invalidate hempty

/-! ## Runs -/

/-- A registry before it has loaded anything. -/
def blank (settings : Settings) (table : σ) (trace : Trace) : Atlas σ :=
  ⟨⟨settings, {}, .empty, []⟩, table, trace⟩

theorem accounted_start (settings : Settings) (table : σ) (trace : Trace) :
    Accounted (blank settings table trace)
      (if settings.eager then (blank settings table trace).tableErrors else [])
      (refusal (start settings table trace).1) (start settings table trace).2 := by
  unfold start
  dsimp only
  split
  · exact accounted_load rfl
  · exact (Met.refl _).of_silence rfl

/-- Between calls nothing is put aside. -/
theorem settled_runAmong (hempty : a.registry.deferred = []) (events : List (Event σ)) :
    (a.runAmong events).registry.deferred = [] := by
  refine runAmong_preserves (P := fun a => a.registry.deferred = []) ?_ hempty
  intro a e _ ha
  cases e with
  | call call => exact (accounted_perform ha call).settled
  | others table trace => exact ha

end Calls

end Atlas

/-! ## Opening the entry table -/

namespace Session

theorem failures_openAt (d : Disk) (root name : String) :
    failures (FileTable.openAt d root name).notices = [] := by
  unfold FileTable.openAt
  split
  · rfl
  · dsimp only
    split
    · rfl
    · rfl
    · split <;> rfl

theorem failures_openBy (s : Shelf) (opener : Opener) (name : String) :
    failures (s.openBy opener name).notices = [] := by
  have hfile : failures (s.openFile name).notices = [] := by
    have hopen := failures_openAt s.disk rootPath name
    unfold Shelf.openFile
    dsimp only
    split <;> exact hopen
  unfold Shelf.openBy
  cases opener with
  | faulty => rfl
  | memory => rfl
  | files factory =>
      dsimp only
      split
      · rfl
      · split <;> exact hfile

/-- A table that cannot be opened is the caller's matter alone. -/
theorem build_cannotOpen {s : Session} {as : String} {o : Options} {opener : Opener}
    {e : TableError} (h : (s.shelf.openBy opener o.settings.entryTable).ref = .error e) :
    (s.build as o opener).1 = .error (.space (.cannotOpen o.settings.entryTable e)) ∧
      (s.build as o opener).2.trace.reports = s.trace.reports ∧
      failures (s.build as o opener).2.trace.notices = failures s.trace.notices := by
  have hnotices := failures_openBy s.shelf opener o.settings.entryTable
  unfold build drop
  dsimp only
  rw [h]
  refine ⟨rfl, rfl, ?_⟩
  simp [note, hnotices]

end Session

namespace Atlas

variable {σ : Type} [EntryTable σ]

/-- **Every table error reaches whoever is to be told, or the caller, exactly once.** This holds of
making a registry, which may load its slots at once, and of every call after that, whatever other
registries do to the table and the trace in between and however table, factory and directory fail.
An entry table that cannot be opened is the caller's, and nobody else is told. -/
theorem runAmong_accounts (settings : Settings) (table : σ) (trace : Trace)
    (events : List (Event σ)) (call : Call) :
    Accounted (blank settings table trace)
        (if settings.eager then (blank settings table trace).tableErrors else [])
        (refusal (start settings table trace).1) (start settings table trace).2 ∧
      Accounted ((start settings table trace).2.runAmong events)
        (((start settings table trace).2.runAmong events).met call)
        (((start settings table trace).2.runAmong events).refusal? call)
        (((start settings table trace).2.runAmong events).perform call) ∧
      ∀ (s : Session) (as : String) (o : Session.Options) (opener : Opener) (e : TableError),
        (s.shelf.openBy opener o.settings.entryTable).ref = .error e →
          (s.build as o opener).1 = .error (.space (.cannotOpen o.settings.entryTable e)) ∧
            (s.build as o opener).2.trace.reports = s.trace.reports ∧
            failures (s.build as o opener).2.trace.notices = failures s.trace.notices := by
  have hstart := accounted_start settings table trace
  refine ⟨hstart, accounted_perform (settled_runAmong hstart.settled events) call, ?_⟩
  intro s as o opener e hopen
  exact Session.build_cannotOpen hopen

/-- Two rows, and a factory that fails for both: the second time it finds another version. -/
def twoRows : MemoryTable :=
  ((MemoryTable.create { name := "MemorySpaces" } (.unbound "ram")).2.create
    (.unbound "register")).2

def brokenFactory : Trace := { factory := { plan := [some .io, some .version] } }

/-- A session that has a file where the directory of tables would be. -/
def blocked : Session := { shelf := { disk := ⟨⟨[(["<root>"], .file [])]⟩⟩ } }

theorem runAmong_accounts_broken :
    ((start { name := "Memory" } twoRows brokenFactory).2.trace.reports.map Report.error =
        [.io "memory://Memory_ram" .injected] ∧
      ∃ table, refusal (start { name := "Memory" } twoRows brokenFactory).1 =
        some (.schema table (.version "Memory_register" 0 1))) ∧
    (blocked.build "m" {} (.files "f")).1 =
      .error (.space (.cannotOpen "MemorySpaces" (.io "<root>/spaces" .notDirectory))) := by
  obtain ⟨hstart, -, hopening⟩ :=
    runAmong_accounts { name := "Memory" } twoRows brokenFactory [] .load
  have herrors : (blank { name := "Memory" } twoRows brokenFactory).tableErrors =
      [.io "memory://Memory_ram" .injected, .version "Memory_register" 0 1] := by decide
  rw [if_pos rfl, herrors] at hstart
  refine ⟨⟨?_, hstart.verdict.of_version (by simp) rfl⟩, ?_⟩
  · rw [(hstart.recorded rfl).1]
    rfl
  · exact (hopening blocked "m" {} (.files "f") (.io "<root>/spaces" .notDirectory) (by decide)).1

end Atlas
end TraceAtlas
