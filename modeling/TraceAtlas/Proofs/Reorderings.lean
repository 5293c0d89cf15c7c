import Mathlib.Data.List.Perm.Basic
import TraceAtlas.Proofs.Canonical

/-!
# Data in another order

What is the same data as a map is a map of the same entries in some order (`SameData.map_cases`),
and what is the same data as a value without levels is that value. In whatever order data are
listed, they take equally many bytes (`SameData.length_bytesOf_eq`).
-/

namespace TraceAtlas.Cbor.Value

variable {v w : Value} {entries : List (Value × Value)}

/-- What is listed in another order than images of some things are images of them in that order. -/
theorem exists_perm_of_perm_map {α β : Type} {f : α → β} {xs : List α} {ys : List β}
    (h : ys.Perm (xs.map f)) : ∃ zs : List α, zs.Perm xs ∧ ys = zs.map f := by
  obtain ⟨zs, hys, hperm⟩ := (congrFun₂ (List.eq_map_comp_perm f) ys xs).mpr h
  exact ⟨zs, hperm, hys⟩

/-- Neither an array nor a map. -/
def IsScalar : Value → Prop
  | .array _ => False
  | .map _ => False
  | _ => True

namespace SameData

theorem eq_of_isScalar (h : v.SameData w) (hv : v.IsScalar) : w = v := by
  induction h with
  | refl => rfl
  | trans _ _ ih ih' =>
      obtain rfl := ih hv
      exact ih' hv
  | reorder | item | entry => exact hv.elim

/-- Entry by entry the same data. -/
def Entrywise : List (Value × Value) → List (Value × Value) → Prop :=
  List.Forall₂ fun e f => e.1.SameData f.1 ∧ e.2.SameData f.2

theorem Entrywise.refl (entries : List (Value × Value)) : Entrywise entries entries :=
  List.forall₂_same.mpr fun _ _ => ⟨.refl _, .refl _⟩

theorem Entrywise.trans {entries' entries'' : List (Value × Value)}
    (h : Entrywise entries entries') (h' : Entrywise entries' entries'') :
    Entrywise entries entries'' := by
  induction h generalizing entries'' with
  | nil => exact h'
  | cons hentry _ ih =>
      cases h' with
      | cons hentry' h' =>
          exact .cons ⟨hentry.1.trans hentry'.1, hentry.2.trans hentry'.2⟩ (ih h')

/-- Entries without levels are the same data only as themselves. -/
theorem Entrywise.eq_of_isScalar {entries' : List (Value × Value)} (h : Entrywise entries entries')
    (hscalar : ∀ e ∈ entries, e.1.IsScalar ∧ e.2.IsScalar) : entries' = entries := by
  induction h with
  | nil => rfl
  | cons hentry _ ih =>
      obtain ⟨⟨hkey, hvalue⟩, hrest⟩ := List.forall_mem_cons.mp hscalar
      rw [ih hrest]
      exact congrArg (· :: _)
        (Prod.ext (hentry.1.eq_of_isScalar hkey) (hentry.2.eq_of_isScalar hvalue))

/-- What is the same data as a map lists the same entries in some order. -/
theorem map_cases (h : (Value.map entries).SameData w) : ∃ same listed, w = .map listed ∧
    Entrywise entries same ∧ listed.Perm same := by
  generalize hv : Value.map entries = v at h
  induction h generalizing entries with
  | refl => exact ⟨entries, entries, hv.symm, .refl _, .refl _⟩
  | trans _ _ ih ih' =>
      obtain ⟨same, listed, rfl, hsame, hlisted⟩ := ih hv
      obtain ⟨same', listed', rfl, hsame', hlisted'⟩ := ih' rfl
      -- the first reordering may as well be made last
      obtain ⟨same'', hsame'', hperm⟩ := List.perm_comp_forall₂ hlisted.symm hsame'
      exact ⟨same'', listed', rfl, hsame.trans hsame'', hlisted'.trans hperm.symm⟩
  | @reorder entries' listed hperm =>
      cases hv
      exact ⟨entries', listed, rfl, .refl _, hperm.symm⟩
  | item => cases hv
  | entry front back hkey hvalue =>
      cases hv
      refine ⟨_, _, rfl, ?_, .refl _⟩
      exact List.rel_append (Entrywise.refl front) (.cons ⟨hkey, hvalue⟩ (Entrywise.refl back))

/-- The same data as a map of scalars are the entries of the map in some order. -/
theorem exists_perm {ι : Type} {pair : ι → Value × Value} {all : List ι}
    (hscalar : ∀ i, (pair i).1.IsScalar ∧ (pair i).2.IsScalar)
    (h : (Value.map (all.map pair)).SameData w) :
    ∃ fields : List ι, fields.Perm all ∧ w = .map (fields.map pair) := by
  obtain ⟨same, listed, rfl, hsame, hperm⟩ := h.map_cases
  have hentries : ∀ e ∈ all.map pair, e.1.IsScalar ∧ e.2.IsScalar := by
    intro e he
    obtain ⟨i, -, rfl⟩ := List.mem_map.mp he
    exact hscalar i
  rw [hsame.eq_of_isScalar hentries] at hperm
  obtain ⟨fields, hfields, rfl⟩ := exists_perm_of_perm_map hperm
  exact ⟨fields, hfields, rfl⟩

theorem length_bytesOf_eq (h : v.SameData w) : v.bytesOf.length = w.bytesOf.length := by
  induction h with
  | refl => rfl
  | trans _ _ ih ih' => exact ih.trans ih'
  | reorder hperm =>
      rw [bytesOf, bytesOf, List.length_append, List.length_append, hperm.length_eq,
        bytesOfEntries_eq_flatMap, bytesOfEntries_eq_flatMap]
      exact congrArg _ (hperm.flatMap_right bytesOfEntry).length_eq
  | item front back _ ih =>
      simp [bytesOf, bytesOfItems_eq_flatMap, ih]
  | entry front back _ _ ihkey ihvalue =>
      simp [bytesOf, bytesOfEntries_eq_flatMap, bytesOfEntry, ihkey, ihvalue]

end SameData
end TraceAtlas.Cbor.Value
