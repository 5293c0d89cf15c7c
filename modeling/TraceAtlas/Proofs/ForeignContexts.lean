import TraceAtlas.Proofs.Orderly

/-!
# Contexts of other traces

A lookup may carry an execution context that the trace has never handed out, or one that differs
from the context the trace has under its key. `ask_foreign` says that such a lookup is turned away
before it touches anything, and that whatever lookups create is for contexts of the trace: the rows
they add and the register slots they fill.

That holds of all ways to carry a context but one. A register bank that is asked for by context and
frame is handed out, and made, for any context whatever; a load then passes over its row.
-/

namespace TraceAtlas

/-- The execution context that a lookup carries. -/
def Query.context? : Query → Option ExecutionContext
  | .request ⟨_, carried, _⟩ => carried
  | .context carried _ => some carried
  | .frame (.level carried _) => some carried
  | .register (.frame carried _) => some carried
  | _ => none

namespace Atlas

variable {σ : Type} [EntryTable σ] {a b c : Atlas σ} {q : Query} {create : Bool}

/-- The trace has a context of this key. -/
def KnowsKey (a : Atlas σ) (key : Int64) : Prop :=
  ∃ context, ContextDirectory.owns a.trace.contexts context = true ∧ context.key = key

/-- What was created on the way from `a` to `b` is for contexts of the trace or for none. -/
structure CreatesForOwn (a b : Atlas σ) : Prop where
  rows : ∃ entries : List Entry,
    (∀ e ∈ entries, e.context = Entry.noContext ∨ a.KnowsKey e.context) ∧
      b.table = entries.foldl (fun t e => (EntryTable.create e t).2) a.table
  banks : ∀ bank x, b.caches.at? (.register bank) = some x →
    a.caches.at? (.register bank) = some x ∨ a.KnowsKey bank.context

theorem CreatesForOwn.of_unchanged (h : CreatesForOwn a b) (table : c.table = b.table)
    (caches : c.caches = b.caches) : CreatesForOwn a c :=
  ⟨table ▸ h.rows, caches ▸ h.banks⟩

theorem Filled.table_eq {t : Target} {r : Except SpaceError (Option SubSpace)}
    (h : Filled a t r b) :
    b.table = a.table ∨ b.table = (EntryTable.create t.entry a.table).2 := by
  cases h with
  | held held => exact .inl rfl
  | noRow empty create nothing idle => exact .inr (idle.table.trans (by rw [create]))
  | noSpace empty create planned nothing kept caches plan count =>
      exact .inr (kept.table.trans (by rw [create]))
  | made empty create planned kept caches plan count =>
      exact .inr (kept.table.trans (by rw [create]))

omit [EntryTable σ] in
/-- A slot that a lookup fills is one of a memory space, or that of a bank whose context the trace
knows unless the lookup went unchecked. -/
theorem Names.forOwn {t : Target} (h : b.Names q t)
    (checked : ∀ context ∈ q.unchecked?,
      ContextDirectory.owns b.trace.contexts context = true) :
    (t.entry.context = Entry.noContext ∨ b.KnowsKey t.entry.context) ∧
      ∀ bank, t.slot = .register bank → b.KnowsKey bank.context := by
  cases h with
  | space named admitted => exact ⟨.inl rfl, nofun⟩
  | container found admitted => exact ⟨.inl rfl, nofun⟩
  | @bank context frame contexts owned =>
      have hknows : b.KnowsKey context.key := ⟨context, owned.elim id (checked context), rfl⟩
      refine ⟨.inr hknows, ?_⟩
      rintro _ ⟨⟩
      exact hknows

theorem CreatesForOwn.fill {t : Target} {r : Except SpaceError (Option SubSpace)}
    (h : CreatesForOwn a b) (contexts : b.trace.contexts = a.trace.contexts) (names : b.Names q t)
    (checked : ∀ context ∈ q.unchecked?,
      ContextDirectory.owns a.trace.contexts context = true)
    (filled : Filled b t r c) : CreatesForOwn a c := by
  obtain ⟨hentry, hbank⟩ := names.forOwn (contexts ▸ checked)
  simp only [KnowsKey, contexts] at hentry hbank
  refine ⟨?_, ?_⟩
  · obtain ⟨entries, hentries, htable⟩ := h.rows
    rcases filled.table_eq with hsame | hnew
    · exact ⟨entries, hentries, hsame.trans htable⟩
    · refine ⟨entries ++ [t.entry], ?_, ?_⟩
      · intro e he
        rcases List.mem_append.mp he with he | he
        · exact hentries e he
        · rw [List.mem_singleton.mp he]
          exact hentry
      · rw [hnew, htable, List.foldl_append]
        rfl
  · intro bank x hx
    rcases filled.placed with ⟨hcaches, -⟩ | ⟨key, hcaches, -⟩
    · exact h.banks bank x (hcaches ▸ hx)
    · rw [hcaches, Caches.at?_put] at hx
      split at hx
      · next hslot => exact .inr (hbank bank hslot.symm)
      · exact h.banks bank x hx

/-- Every step of a lookup that does not carry an unchecked context of another trace creates for the
trace's own. -/
theorem stable_createsForOwn (a : Atlas σ) (create : Bool)
    (checked : ∀ context ∈ q.unchecked?,
      ContextDirectory.owns a.trace.contexts context = true) :
    Stable q create fun b => b.trace.contexts = a.trace.contexts ∧ CreatesForOwn a b where
  idle hidle h := ⟨hidle.contexts.trans h.1, h.2.of_unchanged hidle.table hidle.caches⟩
  mint _ hminted h :=
    ⟨hminted.idle.contexts.trans h.1, h.2.of_unchanged hminted.idle.table hminted.idle.caches⟩
  fill _ names hfilled h :=
    ⟨hfilled.sameWorld.contexts.trans h.1, h.2.fill h.1 names checked hfilled⟩
  remember _ _ _ h := ⟨h.1, h.2.of_unchanged rfl rfl⟩

/-! ## Foreign contexts -/

/-- A lookup that carries a context of another trace is turned away, and nothing changes. -/
def TurnsAway (a : Atlas σ) (q : Query) (create : Bool) : Prop :=
  ∀ context ∈ q.context?, ContextDirectory.owns a.trace.contexts context = false →
    a.ask q create = (.error (.notMine context.key), a)

theorem lookupContext_of_foreign {context : ExecutionContext}
    (contexts : a.settings.contexts = true)
    (foreign : ContextDirectory.owns a.trace.contexts context = false) (frame : UInt32)
    (create : Bool) :
    a.lookupContext context frame create = (.error (.notMine context.key), a) := by
  simp [lookupContext, contexts, foreign]

/-- **No lookup creates anything for a context of another trace.** On any atlas of a registry that
knows contexts, a lookup that carries such a context is turned away with nothing changed, and any
lookup creates for the trace's own contexts only, provided that a context that goes unchecked is one
of them. -/
theorem ask_foreign (a : Atlas σ) (contexts : a.settings.contexts = true) (q : Query)
    (create : Bool)
    (checked : ∀ context ∈ q.unchecked?,
      ContextDirectory.owns a.trace.contexts context = true) :
    a.TurnsAway q create ∧ CreatesForOwn a (a.ask q create).2 := by
  constructor
  · intro context hcontext foreign
    have hturned := fun frame => lookupContext_of_foreign contexts foreign frame create
    cases q with
    | request request =>
        obtain ⟨space, carried, frame⟩ := request
        cases hcontext
        exact hturned frame
    | space space => cases hcontext
    | context carried frame =>
        cases hcontext
        exact hturned frame
    | frame frame =>
        cases frame with
        | object object => cases hcontext
        | level carried level =>
            cases hcontext
            exact hturned level
    | register key =>
        cases key with
        | object object level => cases hcontext
        | frame carried level =>
            -- this context went unchecked, so it is one of the trace
            cases hcontext
            rw [checked context rfl] at foreign
            cases foreign
  · refine ((stable_createsForOwn a create checked).ask ⟨rfl, ⟨[], nofun, rfl⟩, ?_⟩).2
    exact fun bank x hx => .inl hx

/-- A context with a key of the trace under a name of its own is turned away, and a bank of the
trace's context is made for that context. -/
theorem ask_foreign_impostor :
    let a := unloaded { name := "Memory" } ({ name := "MemorySpaces" } : MemoryTable) .single
    let impostor : ExecutionContext := { key := 5, name := "impostor" }
    a.ask (.request ⟨⟨2, "ram", .memory, none⟩, some impostor, 0⟩) true =
        (.error (.notMine 5), a) ∧
      CreatesForOwn a (a.ask (.register (.frame .main 0)) true).2 := by
  intro a impostor
  have hturned := (ask_foreign a rfl
    (.request ⟨⟨2, "ram", .memory, none⟩, some impostor, 0⟩) true (by simp [Query.unchecked?])).1
  refine ⟨hturned impostor rfl (by decide), (ask_foreign a rfl _ true ?_).2⟩
  rintro context ⟨⟩
  decide

/-- The bank of a context that the trace has never heard of is made when it is asked for by context
and frame. Its row is in the table for good, and no load fills the slot again. -/
theorem not_turnsAway_stranger :
    let a := unloaded { name := "Memory" } ({ name := "MemorySpaces" } : MemoryTable) .single
    let stranger : ExecutionContext := { key := 7, name := "other" }
    let b := (a.ask (.register (.frame stranger 0)) true).2
    ¬ a.TurnsAway (.register (.frame stranger 0)) true ∧
      b.table.rows = [(0, ⟨"register", 7, 0⟩)] ∧
      (b.caches.at? (.register ⟨7, 0⟩)).isSome = true ∧
      b.invalidate.2.caches.at? (.register ⟨7, 0⟩) = none := by
  refine ⟨fun turned => ?_, by decide +kernel, by decide +kernel, by decide +kernel⟩
  have herror := congrArg Prod.fst (turned _ rfl (by decide))
  revert herror
  decide +kernel

end Atlas
end TraceAtlas
