import TraceAtlas.Entry.Codec
import TraceAtlas.Proofs.Reorderings
import TraceAtlas.Proofs.WholeReads

/-!
# Entries are read with their fields in any order

An entry is written as a map of its three fields. Whatever the order in which the map lists them,
its bytes are read as the entry (`Entry.reads`), and so is the item that they are read as
beforehand (`Entry.reads_item_fields`, `Entry.ofItem?_fields`). What a draft of the entry holds on
the way depends on nothing but the fields that were met (`Entry.Draft.of`).
-/

namespace TraceAtlas

open Cbor

theorem Cbor.Value.fits_natCast {n : Nat} (h : n < UInt64.size) : fits n = true := by
  have hbound : (n : Int) < 2 ^ 64 := Int.ofNat_lt.mpr h
  simp only [fits, UInt64.size, Bool.and_eq_true, decide_eq_true_eq]
  omega

namespace Entry

/-! ## Fields -/

inductive Field where
  | space
  | context
  | frame
deriving DecidableEq

namespace Field

def all : List Field := [space, context, frame]

theorem mem_all (f : Field) : f ∈ all := by
  cases f <;> decide

def name : Field → String
  | space => "space_name"
  | context => "context_key"
  | frame => "frame_level"

def position : Field → Nat
  | space => 0
  | context => 1
  | frame => 2

theorem ofText_name (f : Field) : FieldName.ofText fieldNames f.name = .field f.position := by
  cases f <;> decide

theorem length_name_lt (f : Field) : (Utf8.encode f.name).length < UInt64.size := by
  cases f <;> decide

end Field

/-- A field as it is written, with its name in front. -/
def pair (e : Entry) : Field → Value × Value
  | .space => (.text Field.space.name, .text e.space)
  | .context => (.text Field.context.name, .int e.context.toInt)
  | .frame => (.text Field.frame.name, .int e.frame.toNat)

/-- A field as an item, with its name in front. -/
def itemPair (e : Entry) : Field → Item × Item
  | .space => (.text Field.space.name, .text e.space)
  | .context => (.text Field.context.name, .ofInt e.context.toInt)
  | .frame => (.text Field.frame.name, .ofInt e.frame.toNat)

theorem toValue_eq (e : Entry) : e.toValue = .map (Field.all.map e.pair) := rfl

variable {e : Entry} {front fields : List Field} {f : Field} {v : Value} {depth left : Nat}
  {a : List UInt8}

theorem encodable_toValue (e : Entry) : e.toValue.encodable = true := by
  have hcontext := Int64.le_toInt e.context
  have hcontext' := Int64.toInt_lt e.context
  have hfits : Value.fits e.context.toInt = true := by
    simp only [Value.fits, UInt64.size, Bool.and_eq_true, decide_eq_true_eq]
    omega
  have hframe := Value.fits_natCast (Nat.lt_trans e.frame.toNat_lt (by decide))
  simp only [toValue_eq, Field.all, pair, List.map_cons, List.map_nil, Value.encodable,
    Value.encodableEntries, hfits, hframe, Bool.and_true]

theorem length_space_le (e : Entry) :
    (Utf8.encode e.space).length ≤ e.toValue.bytesOf.length := by
  simp only [toValue_eq, Field.all, pair, List.map_cons, Value.bytesOf, Value.bytesOfEntries,
    List.length_append]
  omega

/-- The same data as an entry are its fields in some order. -/
theorem fields_of_sameData (h : e.toValue.SameData v) :
    ∃ fields : List Field, fields.Perm Field.all ∧ v = .map (fields.map e.pair) := by
  rw [toValue_eq] at h
  refine h.exists_perm fun f => ?_
  cases f <;> exact ⟨trivial, trivial⟩

/-! ## Drafts -/

/-- What is held of an entry when these fields were met. -/
def Draft.of (e : Entry) (fields : List Field) : Draft where
  space := if .space ∈ fields then some e.space else none
  context := if .context ∈ fields then some e.context else none
  frame := if .frame ∈ fields then some e.frame else none

namespace Draft

theorem complete?_of (h : ∀ f, f ∈ fields) : (of e fields).complete? = some e := by
  simp [of, complete?, h]

theorem has_of (h : f ∉ front) : (of e front).has f.position = false := by
  cases f <;> simp [of, has, Field.position, h]

/-- A field that is met is held from then on, and the others stay as they are. -/
theorem of_concat (e : Entry) (front : List Field) (f : Field) : of e (front ++ [f]) =
    match f with
    | .space => { of e front with space := some e.space }
    | .context => { of e front with context := some e.context }
    | .frame => { of e front with frame := some e.frame } := by
  cases f <;> simp [of]

theorem putItem?_of (h : f ∉ front) :
    (of e front).putPair? (e.itemPair f) = some (of e (front ++ [f])) := by
  have hname : (e.itemPair f).1.fieldName? fieldNames = some (.field f.position) := by
    cases f <;> exact congrArg some (Field.ofText_name _)
  have hframe : e.frame.toNat < UInt32.size := e.frame.toNat_lt
  rw [putPair?, hname, of_concat]
  dsimp only
  rw [has_of h]
  cases f with
  | space => rfl
  | context =>
      show (Item.ofInt e.context.toInt).int64?.map _ = _
      rw [Item.int64?_ofInt]
      rfl
  | frame =>
      show (if e.frame.toNat < UInt32.size then some e.frame.toNat else none).map _ = _
      rw [if_pos hframe]
      simp

theorem foldlM_putPair?_of (h : (front ++ fields).Nodup) :
    (fields.map e.itemPair).foldlM putPair? (of e front) = some (of e (front ++ fields)) := by
  induction fields generalizing front with
  | nil => simp
  | cons f fields ih =>
      have hf : f ∉ front := fun hmem =>
        (List.nodup_append.mp h).2.2 f hmem f List.mem_cons_self rfl
      rw [List.append_cons front f fields] at h ⊢
      rw [List.map_cons, List.foldlM_cons, putItem?_of hf]
      exact ih h

/-- The value of a field is read as the field says. -/
theorem reads_value (hspace : (Utf8.encode e.space).length < UInt64.size) (f : Field) :
    Reads ((of e front).readField depth f.position) (e.pair f).2.bytesOf
      (of e (front ++ [f])) := by
  rw [of_concat]
  cases f with
  | space => exact (reads_readText hspace).bindLast fun _ => rfl
  | context => exact (reads_readInt64 e.context).bindLast fun _ => rfl
  | frame =>
      have hframe : e.frame.toNat < UInt32.size := e.frame.toNat_lt
      have hhead := reads_unsigned (Nat.lt_trans hframe (by decide))
      have hread := reads_readNatBelow hframe (reads_untagged hhead (by simp) depth)
      refine hread.bindLast fun bs => ?_
      show Except.ok ({ of e front with frame := some (UInt32.ofNat e.frame.toNat) }, bs) = _
      rw [UInt32.ofNat_toNat]

/-- A field that was not met before is read with its name in front. -/
theorem reads_pair (hspace : (Utf8.encode e.space).length < UInt64.size) (hf : f ∉ front) :
    Reads (readPair depth (of e front)) (Value.bytesOfEntry (e.pair f)) (of e (front ++ [f])) := by
  have hname : Reads (readScalar (Head.fieldName? fieldNames) depth) (e.pair f).1.bytesOf
      (.field f.position) := by
    have hhead := reads_untagged (reads_text f.length_name_lt) (by simp) depth
    have hread : Reads (readScalar (Head.fieldName? fieldNames) depth) _ (.field f.position) :=
      reads_scalar hhead (congrArg some f.ofText_name)
    cases f <;> exact hread
  refine hname.bind ?_
  dsimp only
  rw [has_of hf]
  exact reads_value hspace f

/-- All fields are read, in whatever order they come. -/
theorem reads_pairs (hspace : (Utf8.encode e.space).length < UInt64.size)
    (hperm : fields.Perm Field.all) :
    Reads (stepTimes (readPair depth) 3 {}) (Value.bytesOfEntries (fields.map e.pair))
      (of e fields) := by
  have hnodup : fields.Nodup := hperm.nodup_iff.mpr (by decide)
  have hsteps : Reads (stepTimes (readPair depth) fields.length (of e []))
      (fields.flatMap fun f => Value.bytesOfEntry (e.pair f)) (of e ([] ++ fields)) := by
    apply reads_steps (of e)
    intro front back f hplace
    refine reads_pair hspace fun hmem => ?_
    rw [List.nil_append] at hplace
    rw [hplace] at hnodup
    exact (List.nodup_append.mp hnodup).2.2 f hmem f List.mem_cons_self rfl
  have hlength : fields.length = 3 := hperm.length_eq
  rw [hlength] at hsteps
  rw [Value.bytesOfEntries_eq_flatMap, List.flatMap_map]
  exact hsteps

end Draft

/-! ## Entries -/

theorem reads_fields (hspace : (Utf8.encode e.space).length < UInt64.size)
    (hperm : fields.Perm Field.all)
    (hhead : Reads (readUntagged depth) a (.map (some 3), left + 1)) :
    Reads (Entry.read depth) (a ++ Value.bytesOfEntries (fields.map e.pair)) e := by
  have hdraft := Draft.complete?_of (e := e) fun f => hperm.mem_iff.mpr f.mem_all
  refine hhead.bind ((Draft.reads_pairs hspace hperm).bindLast fun bs => ?_)
  dsimp only
  rw [hdraft]

/-- **A document that is the same data as an entry is read as the entry.** -/
theorem reads (hspace : (Utf8.encode e.space).length < UInt64.size) (h : e.toValue.SameData v) :
    Reads (Entry.read maxDepth) v.document e := by
  obtain ⟨fields, hperm, rfl⟩ := fields_of_sameData h
  have hmap : Reads readHead (head 5 3) (.map (some 3)) := reads_map (by decide)
  have hhead := reads_document (reads_untagged hmap (by simp) 126)
  have hread : Reads (Entry.read maxDepth) _ e := reads_fields hspace hperm hhead
  have hlength : (fields.map e.pair).length = 3 := by
    rw [List.length_map]
    exact hperm.length_eq
  rw [List.append_assoc] at hread
  rw [Value.document, Value.bytesOf, hlength]
  exact hread

theorem ofItem?_fields (hperm : fields.Perm Field.all) :
    ofItem? (.map (fields.map e.itemPair)) = some e := by
  have hnodup : fields.Nodup := hperm.nodup_iff.mpr (by decide)
  show (fields.map e.itemPair).foldlM Draft.putPair? (Draft.of e []) >>= Draft.complete? = some e
  rw [Draft.foldlM_putPair?_of (by simpa using hnodup)]
  exact Draft.complete?_of fun f => by simpa using hperm.mem_iff.mpr f.mem_all

theorem reads_item_fields (hspace : (Utf8.encode e.space).length < UInt64.size)
    (hperm : fields.Perm Field.all) :
    Reads (readItem .word (depth + 1)) (Value.map (fields.map e.pair)).bytesOf
      (.map (fields.map e.itemPair)) := by
  refine reads_item_map ?_ ?_
  · rw [List.length_map, hperm.length_eq]
    decide
  · rw [List.forall₂_map_left_iff, List.forall₂_map_right_iff]
    refine List.forall₂_same.mpr fun f _ => ?_
    cases f with
    | space => exact ⟨reads_item_text (by decide), reads_item_text hspace⟩
    | context => exact ⟨reads_item_text (by decide), reads_item_int64 e.context⟩
    | frame =>
        have hframe : e.frame.toNat < UInt64.size := Nat.lt_trans e.frame.toNat_lt (by decide)
        exact ⟨reads_item_text (by decide), reads_item_nat hframe⟩

end Entry
end TraceAtlas
