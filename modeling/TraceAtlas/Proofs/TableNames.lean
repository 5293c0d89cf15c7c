import Mathlib.Data.List.Basic
import TraceAtlas.Space

/-!
# Table names tell tables apart

A table name is the manager's name, the name of the space with its underscores doubled, and for a
register bank the context and the frame behind it. Read from the left, behind the manager's name and
its underscore, every underscore of the space comes twice, so the first one that stands alone starts
the suffix of a bank. What a name was made of can therefore be read off it (`tableName_eq_iff`).
-/

namespace TraceAtlas

namespace TableName

/-- A name with its underscores doubled. -/
def escaped (name : List Char) : List Char :=
  name.flatMap fun c => if c = '_' then ['_', '_'] else [c]

def suffix (context : Int64) (frame : UInt32) : List Char :=
  '_' :: (toString context.toInt).toList ++ '_' :: (toString frame.toNat).toList

/-- A text that no escaped name goes on with: it is over, or its first underscore stands alone. -/
inductive Ends : List Char → Prop
  | done : Ends []
  | alone {c : Char} {rest : List Char} (h : c ≠ '_') : Ends ('_' :: c :: rest)

theorem escaped_cons (c : Char) (name : List Char) :
    escaped (c :: name) = (if c = '_' then ['_', '_'] else [c]) ++ escaped name := rfl

theorem Ends.ne_escaped_cons {s t : List Char} (ht : Ends t) (c : Char) (name : List Char) :
    escaped (c :: name) ++ s ≠ t := by
  rw [escaped_cons]
  cases ht with
  | done => split <;> simp
  | alone h => split <;> simp_all [eq_comm]

/-- **An escaped name ends where the text behind it begins.** -/
theorem escaped_append_inj {m n s t : List Char} (hs : Ends s) (ht : Ends t)
    (h : escaped m ++ s = escaped n ++ t) : m = n ∧ s = t := by
  induction m generalizing n with
  | nil =>
      cases n with
      | nil => exact ⟨rfl, h⟩
      | cons d n => exact absurd h.symm (hs.ne_escaped_cons d n)
  | cons c m ih =>
      cases n with
      | nil => exact absurd h (ht.ne_escaped_cons c m)
      | cons d n =>
          simp only [escaped_cons, List.append_assoc] at h
          have hcd : c = d ∧ escaped m ++ s = escaped n ++ t := by
            by_cases hc : c = '_' <;> by_cases hd : d = '_' <;> simp_all [eq_comm]
          obtain ⟨rfl, hrest⟩ := hcd
          obtain ⟨rfl, hst⟩ := ih hrest
          exact ⟨rfl, hst⟩

/-! ## Numbers in names -/

theorem underscore_not_mem_nat (n : Nat) : '_' ∉ (toString n).toList := by
  rw [Nat.toString_eq_ofList_toDigits, String.toList_ofList]
  exact Nat.underscore_not_in_toDigits

theorem underscore_not_mem_int (n : Int) : '_' ∉ (toString n).toList := by
  rw [Int.toString_eq_repr]
  cases n with
  | ofNat n => exact underscore_not_mem_nat n
  | negSucc n =>
      show '_' ∉ ("-" ++ n.succ.repr).toList
      rw [String.toList_append, List.mem_append, not_or]
      exact ⟨by decide, underscore_not_mem_nat n.succ⟩

theorem toList_int_ne_nil (n : Int) : (toString n).toList ≠ [] := by
  rw [Int.toString_eq_repr]
  cases n with
  | ofNat n =>
      show n.repr.toList ≠ []
      simp
  | negSucc n =>
      show ("-" ++ n.succ.repr).toList ≠ []
      simp

/-- The digits of a number can be read back. -/
theorem repr_nat_inj {m n : Nat} (h : m.repr = n.repr) : m = n := by
  have hdigits : Nat.toDigits 10 m = Nat.toDigits 10 n := by
    rw [← Nat.toList_repr, ← Nat.toList_repr, h]
  have hread := congrArg (Nat.ofDigitChars 10 · 0) hdigits
  simpa only [Nat.ofDigitChars_ten_toDigits] using hread

theorem hyphen_not_mem_nat (n : Nat) : '-' ∉ n.repr.toList := by
  rw [Nat.toList_repr]
  intro h
  exact absurd (Nat.isDigit_of_mem_toDigits (by decide) (by decide) h) (by decide)

theorem repr_int_inj {m n : Int} (h : m.repr = n.repr) : m = n := by
  have hne : ∀ k l : Nat, k.repr ≠ "-" ++ l.repr := by
    intro k l hkl
    apply hyphen_not_mem_nat k
    rw [hkl, String.toList_append]
    exact List.mem_append_left _ (by decide)
  cases m with
  | ofNat m =>
      cases n with
      | ofNat n => exact congrArg Int.ofNat (repr_nat_inj h)
      | negSucc n => exact absurd h (hne m n.succ)
  | negSucc m =>
      cases n with
      | ofNat n => exact absurd h.symm (hne n m.succ)
      | negSucc n =>
          have hminus : "-" ++ m.succ.repr = "-" ++ n.succ.repr := h
          rw [String.append_right_inj] at hminus
          exact congrArg Int.negSucc (Nat.succ.inj (repr_nat_inj hminus))

theorem ends_suffix (context : Int64) (frame : UInt32) : Ends (suffix context frame) := by
  unfold suffix
  have hnone := underscore_not_mem_int context.toInt
  cases htext : (toString context.toInt).toList with
  | nil => exact absurd htext (toList_int_ne_nil _)
  | cons c rest =>
      rw [htext, List.mem_cons, not_or] at hnone
      exact .alone (Ne.symm hnone.1)

theorem suffix_inj {c d : Int64} {f g : UInt32} : suffix c f = suffix d g ↔ c = d ∧ f = g := by
  constructor
  · intro h
    unfold suffix at h
    rw [List.cons_append, List.cons_append, List.cons_inj_right] at h
    -- the underscore between the two numbers is in neither of them
    obtain ⟨hcontext, -, hframe⟩ := (List.append_cons_inj_of_notMem
      (underscore_not_mem_int c.toInt) (underscore_not_mem_nat f.toNat)).mp h
    rw [String.toList_inj] at hcontext hframe
    rw [Int.toString_eq_repr, Int.toString_eq_repr] at hcontext
    exact ⟨Int64.toInt_inj.mp (repr_int_inj hcontext), UInt32.toNat_inj.mp (repr_nat_inj hframe)⟩
  · rintro ⟨rfl, rfl⟩
    rfl

end TableName

open TableName

/-- The bank in the name of a table, if it has one. -/
def AddressSpace.bank? (s : AddressSpace) (context : Int64) (frame : UInt32) :
    Option (Int64 × UInt32) :=
  if s.isRegister ∧ context ≠ Entry.noContext then some (context, frame) else none

theorem AddressSpace.bank?_noContext (space : AddressSpace) (frame : UInt32) :
    space.bank? Entry.noContext frame = none := by
  simp [bank?]

/-- Whether a sub-space of the space, for the context, is that of a bank. -/
def AddressSpace.IsBound (s : AddressSpace) (context : Int64) : Prop :=
  s.isRegister = true ∧ context ≠ Entry.noContext

theorem AddressSpace.bank?_of_bound {s : AddressSpace} {context : Int64} (h : s.IsBound context)
    (frame : UInt32) : s.bank? context frame = some (context, frame) := if_pos h

theorem AddressSpace.bank?_of_not_bound {s : AddressSpace} {context : Int64}
    (h : ¬s.IsBound context) (frame : UInt32) : s.bank? context frame = none := if_neg h

theorem toList_tableName (manager : String) (s : AddressSpace) (context : Int64) (frame : UInt32) :
    (tableName manager s context frame).toList = manager.toList ++ '_' :: (escaped s.name.toList ++
      ((s.bank? context frame).map fun b => suffix b.1 b.2).getD []) := by
  unfold tableName AddressSpace.bank?
  split <;> simp [escaped, suffix]

/-- **Two sub-spaces of one manager share a table exactly if their spaces have one name and they
belong to the same bank or both to none.** -/
theorem tableName_eq_iff {manager : String} {s t : AddressSpace} {c d : Int64} {f g : UInt32} :
    tableName manager s c f = tableName manager t d g ↔
      s.name = t.name ∧ s.bank? c f = t.bank? d g := by
  have hends : ∀ b : Option (Int64 × UInt32), Ends ((b.map fun b => suffix b.1 b.2).getD []) := by
    rintro (_ | ⟨context, frame⟩)
    · exact .done
    · exact ends_suffix context frame
  rw [← String.toList_inj, toList_tableName, toList_tableName, List.append_cancel_left_eq,
    List.cons_inj_right]
  constructor
  · intro h
    obtain ⟨hname, hbank⟩ := escaped_append_inj (hends _) (hends _) h
    refine ⟨String.toList_inj.mp hname, ?_⟩
    revert hbank
    generalize s.bank? c f = b
    generalize t.bank? d g = b'
    rcases b with _ | ⟨context, frame⟩ <;> rcases b' with _ | ⟨context', frame'⟩
    · simp
    · simp [suffix]
    · simp [suffix]
    · simp [suffix_inj]
  · rintro ⟨hname, hbank⟩
    rw [hname, hbank]

/-- **No two names of tables collide within a manager.** Whatever the spaces are called, two tables have
one name exactly if the spaces do, both tables or neither belong to a bank, and it is the same one. -/
theorem tableName_eq_iff_bound (manager : String) (s t : AddressSpace) (c d : Int64)
    (f g : UInt32) :
    tableName manager s c f = tableName manager t d g ↔
      s.name = t.name ∧ (s.IsBound c ↔ t.IsBound d) ∧ (s.IsBound c → c = d ∧ f = g) := by
  rw [tableName_eq_iff]
  apply and_congr_right
  intro _
  by_cases hs : s.IsBound c <;> by_cases ht : t.IsBound d
  · rw [AddressSpace.bank?_of_bound hs, AddressSpace.bank?_of_bound ht]
    simp [hs, ht]
  · rw [AddressSpace.bank?_of_bound hs, AddressSpace.bank?_of_not_bound ht]
    simp [hs, ht]
  · rw [AddressSpace.bank?_of_not_bound hs, AddressSpace.bank?_of_bound ht]
    simp [hs, ht]
  · rw [AddressSpace.bank?_of_not_bound hs, AddressSpace.bank?_of_not_bound ht]
    simp [hs, ht]

end TraceAtlas
