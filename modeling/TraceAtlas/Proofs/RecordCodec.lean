import Mathlib.Data.List.Permutation
import TraceAtlas.Proofs.EntryCodec
import TraceAtlas.Table.Record

/-!
# Records are read as they are written

A record is written as a map in canonical order, and its reader takes the fields in any order, the
kind of the record among them. It keeps what it reads before it knows the kind as items, so what
there is to show is that every field is found as the item that stands for it (`Record.Found`), and
that the items are taken apart into the fields they came from, in whatever order they were kept.

`Record.reads` puts this together for every way to list the fields of a record, and
`Record.decode_document_row` is the row as it is written.
-/

namespace TraceAtlas

open Cbor

namespace Record

variable {r : Record} {kind : Kind} {key : RowKey} {entry : Entry} {version : UInt32} {v w : Value}
  {depth : Nat}

/-! ## Records that can be written -/

theorem toValue_row_eq (key : RowKey) (entry : Entry) : (row key entry).toValue = .map [
    (.text "key", .int key),
    (.text "entry", entry.toValue),
    (.text "record", .text "row")] := rfl

theorem toValue_header_eq (version : UInt32) : (header version).toValue = .map [
    (.text "record", .text "header"),
    (.text "version", .int version.toNat)] := rfl

theorem encode_eq_ok {bytes : List UInt8} (h : r.encode = .ok bytes) :
    r.toValue.encodable = true ∧ r.toValue.document = bytes := by
  unfold encode Value.encode at h
  split at h
  · next hfits => exact ⟨hfits, Except.ok.inj h⟩
  · cases h

/-- Whether a row can be written depends on its key alone. -/
theorem encode_row (h : key < UInt64.size) :
    (row key entry).encode = .ok (row key entry).toValue.document := by
  have hfits : (row key entry).toValue.encodable = true := by
    rw [toValue_row_eq]
    simp only [Value.encodable, Value.encodableEntries, Entry.encodable_toValue,
      Value.fits_natCast h, Bool.and_true]
  rw [encode, Value.encode, if_pos hfits]

theorem key_lt (h : (row key entry).toValue.encodable = true) : key < UInt64.size := by
  rw [toValue_row_eq] at h
  simp only [Value.encodable, Value.encodableEntries, Value.fits, Bool.and_eq_true,
    decide_eq_true_eq] at h
  obtain ⟨⟨-, -, hkey⟩, -⟩ := h
  exact_mod_cast hkey

theorem length_name_le (key : RowKey) (entry : Entry) :
    (Utf8.encode entry.space).length ≤ (row key entry).toValue.document.length := by
  have hspace := Entry.length_space_le entry
  rw [toValue_row_eq]
  simp only [Value.document, Value.bytesOf, Value.bytesOfEntries, List.length_append]
  omega

/-! ## Fields as they are found -/

def Kind.name : Kind → String
  | .header => "header"
  | .row => "row"

/-- An entry of the map of a record as its reader finds it: the kind, or a field as the items of its
name and its value. -/
inductive Found (depth : Nat) (kind : Kind) : Value × Value → Option (Item × Item) → Prop
  | kind : Found depth kind (.text kindField, .text kind.name) none
  | field {name : String} {v : Value} {x : Item} (hlength : (Utf8.encode name).length < UInt64.size)
      (hname : name ≠ kindField) (hx : Reads (readItem .word depth) v.bytesOf x) :
      Found depth kind (.text name, v) (some (.text name, x))

/-- What is held of a record when this was found. -/
def Draft.of (kind : Kind) (found : List (Option (Item × Item))) : Draft where
  kind := if found.any Option.isNone then some kind else none
  pairs := found.filterMap id

namespace Draft

variable {e : Value × Value} {f : Option (Item × Item)} {found : List (Option (Item × Item))}

theorem reads_kind (kind : Kind) : Reads (readKind depth) (Value.text kind.name).bytesOf kind := by
  have hlength : (Utf8.encode kind.name).length < UInt64.size := by cases kind <;> decide
  have hkind : kind? (.text kind.name) = some kind := by cases kind <;> decide
  exact reads_scalar (reads_untagged (reads_text hlength) (by simp) depth) hkind

theorem of_concat_field (kind : Kind) (found : List (Option (Item × Item))) (p : Item × Item) :
    of kind (found ++ [some p]) =
      { of kind found with pairs := (of kind found).pairs ++ [p] } := by
  have hkind : (found ++ [some p]).any Option.isNone = found.any Option.isNone := by simp
  rw [of, hkind, List.filterMap_append]
  rfl

/-- An entry is read behind what was found before, but the kind only once. -/
theorem reads_pair (h : Found depth kind e f) (hf : f = none → found.any Option.isNone = false) :
    Reads (readPair depth (of kind found)) (Value.bytesOfEntry e) (of kind (found ++ [f])) := by
  cases h with
  | kind =>
      have hfield : isKindField (.text kindField) = true := by decide
      have hlength : (Utf8.encode kindField).length < UInt64.size := by decide
      refine (reads_item_text hlength).bind ?_
      simp only [hfield, if_true, of, hf rfl, Bool.false_eq_true, if_false, Option.isSome_none]
      exact (reads_kind kind).bindLast fun bs => by simp
  | field hlength hname hx =>
      have hfield : ∀ name : String, name ≠ kindField → isKindField (.text name) = false :=
        fun name hname => by simp [isKindField, hname]
      refine (reads_item_text hlength).bind ?_
      simp only [hfield _ hname, Bool.false_eq_true, if_false]
      exact hx.bindLast fun bs => by rw [of_concat_field]

/-- All fields are found, in whatever order they come. -/
theorem reads_pairs {ι : Type} {pair : ι → Value × Value} {found? : ι → Option (Item × Item)}
    {fields : List ι} (hfound : ∀ i, Found depth kind (pair i) (found? i)) (hnodup : fields.Nodup)
    (honce : ∀ i j, found? i = none → found? j = none → i = j) :
    Reads (stepTimes (readPair depth) fields.length {}) (Value.bytesOfEntries (fields.map pair))
      (of kind (fields.map found?)) := by
  have hsteps : Reads
      (stepTimes (readPair depth) fields.length (of kind (([] : List ι).map found?)))
      (fields.flatMap fun i => Value.bytesOfEntry (pair i))
      (of kind (([] ++ fields).map found?)) := by
    apply reads_steps fun done : List ι => of kind (done.map found?)
    intro front back i hplace
    rw [List.nil_append] at hplace
    rw [hplace] at hnodup
    rw [List.map_append]
    refine reads_pair (hfound i) fun hi => ?_
    rw [List.any_map, List.any_eq_false]
    intro j hj hnone
    have hsame := honce j i (Option.isNone_iff_eq_none.mp hnone) hi
    exact (List.nodup_append.mp hnodup).2.2 j hj i List.mem_cons_self hsame
  rw [Value.bytesOfEntries_eq_flatMap, List.flatMap_map]
  exact hsteps

end Draft

/-! ## Records -/

/-- A record is read from its fields in any order, once what was found makes up the record. -/
theorem reads_fields {ι : Type} {pair : ι → Value × Value} {found? : ι → Option (Item × Item)}
    {fields all : List ι} (hperm : fields.Perm all) (hnodup : all.Nodup)
    (hlength : all.length < UInt64.size) (hfound : ∀ i, Found 125 kind (pair i) (found? i))
    (honce : ∀ i j, found? i = none → found? j = none → i = j)
    (hcomplete : (Draft.of kind (fields.map found?)).complete? = some r) :
    Reads (Record.read maxDepth) (Value.map (fields.map pair)).document r := by
  rw [← hperm.length_eq] at hlength
  have hhead := reads_document (reads_untagged (reads_map hlength) (by simp) 126)
  have hpairs := Draft.reads_pairs hfound (hperm.nodup_iff.mpr hnodup) honce
  rw [Value.document, Value.bytesOf, List.length_map, ← List.append_assoc]
  refine hhead.bind (hpairs.bindLast fun bs => ?_)
  dsimp only
  rw [hcomplete]
  rfl

/-- Found in another order, fields are kept in another order. -/
theorem Draft.complete?_of {ι : Type} {found? : ι → Option (Item × Item)} {fields all : List ι}
    (hperm : fields.Perm all) (hkind : (all.map found?).any Option.isNone = true)
    (hpairs : ∀ pairs, pairs.Perm ((all.map found?).filterMap id) → ofPairs? kind pairs = some r) :
    (Draft.of kind (fields.map found?)).complete? = some r := by
  have hfound := hperm.map found?
  have hany : (fields.map found?).any Option.isNone = true := (hfound.any_eq).trans hkind
  unfold Draft.complete? Draft.of
  rw [if_pos hany]
  exact hpairs _ (hfound.filterMap id)

/-! ### Headers -/

inductive HeaderField where
  | version
  | kind
deriving DecidableEq

namespace HeaderField

def all : List HeaderField := [HeaderField.kind, HeaderField.version]

/-- A field as it is written, with its name in front. -/
def pair (version : UInt32) : HeaderField → Value × Value
  | .version => (.text "version", .int version.toNat)
  | .kind => (.text kindField, .text Kind.header.name)

/-- A field as it is found. -/
def found? (version : UInt32) : HeaderField → Option (Item × Item)
  | .version => some (.text "version", .ofInt version.toNat)
  | .kind => none

theorem eq_kind {f : HeaderField} (h : found? version f = none) : f = .kind := by
  cases f with
  | version => cases h
  | kind => rfl

theorem found (version : UInt32) (f : HeaderField) :
    Found depth .header (pair version f) (found? version f) := by
  cases f with
  | version =>
      have hversion : version.toNat < UInt64.size := Nat.lt_trans version.toNat_lt (by decide)
      exact .field (by decide) (by decide) (reads_item_nat hversion)
  | kind => exact .kind

theorem complete? {fields : List HeaderField} (hperm : fields.Perm all) :
    (Draft.of .header (fields.map (found? version))).complete? = some (header version) := by
  refine Draft.complete?_of hperm rfl fun pairs hpairs => ?_
  obtain rfl := List.perm_singleton.mp hpairs
  have hname : FieldName.ofText headerFields "version" = .field 0 := by decide
  have hversion : version.toNat < UInt32.size := version.toNat_lt
  simp [ofPairs?, versionOf?, Item.fieldName?, hname, Item.ofInt, Item.natBelow?, hversion]

end HeaderField

/-! ### Rows -/

inductive RowField where
  | key
  | entry
  | kind
deriving DecidableEq

namespace RowField

def all : List RowField := [RowField.key, RowField.entry, RowField.kind]

/-- A field as it is written, with its name in front; `w` is the data of the entry. -/
def pair (key : RowKey) (w : Value) : RowField → Value × Value
  | .key => (.text "key", .int key)
  | .entry => (.text "entry", w)
  | .kind => (.text kindField, .text Kind.row.name)

/-- A field as it is found; `x` is the item of the entry. -/
def found? (key : RowKey) (x : Item) : RowField → Option (Item × Item)
  | .key => some (.text "key", .ofInt key)
  | .entry => some (.text "entry", x)
  | .kind => none

theorem eq_kind {f : RowField} {x : Item} (h : found? key x f = none) : f = .kind := by
  cases f with
  | key => cases h
  | entry => cases h
  | kind => rfl

theorem found {x : Item} (hkey : key < UInt64.size) (hx : Reads (readItem .word depth) w.bytesOf x)
    (f : RowField) : Found depth .row (pair key w f) (found? key x f) := by
  cases f with
  | key => exact .field (by decide) (by decide) (reads_item_nat hkey)
  | entry => exact .field (by decide) (by decide) hx
  | kind => exact .kind

theorem complete? {fields : List RowField} {x : Item} (hperm : fields.Perm all)
    (hkey : key < UInt64.size) (hentry : Entry.ofItem? x = some entry) :
    (Draft.of .row (fields.map (found? key x))).complete? = some (row key entry) := by
  refine Draft.complete?_of hperm rfl fun pairs hpairs => ?_
  have hfirst : FieldName.ofText rowFields "key" = .field 0 := by decide
  have hsecond : FieldName.ofText rowFields "entry" = .field 1 := by decide
  rcases List.perm_pair.mp hpairs with rfl | rfl <;>
    simp [ofPairs?, rowOf?, Item.fieldName?, hfirst, hsecond, Item.ofInt, Item.natBelow?, hkey,
      hentry]

end RowField

/-! ### Every listing of a record -/

/-- The fields of a record fit the words that they are written as. -/
def Writable : Record → Prop
  | header _ => True
  | row key entry => key < UInt64.size ∧ (Utf8.encode entry.space).length < UInt64.size

theorem fields_of_sameData_header (h : (header version).toValue.SameData v) :
    ∃ fields : List HeaderField, fields.Perm HeaderField.all ∧
      v = .map (fields.map (HeaderField.pair version)) := by
  have hmap : (Value.map (HeaderField.all.map (HeaderField.pair version))).SameData v := h
  refine hmap.exists_perm fun f => ?_
  cases f <;> exact ⟨trivial, trivial⟩

theorem fields_of_sameData_row (h : (row key entry).toValue.SameData v) :
    ∃ (w : Value) (fields : List RowField), entry.toValue.SameData w ∧
      fields.Perm RowField.all ∧ v = .map (fields.map (RowField.pair key w)) := by
  rw [toValue_row_eq] at h
  obtain ⟨same, listed, rfl, hsame, hperm⟩ := h.map_cases
  match same, hsame with
  | [k, e, r], .cons hk (.cons he (.cons hr .nil)) =>
      -- only the entry has levels in which its listing may differ
      have hkey : k = (.text "key", .int key) :=
        Prod.ext (hk.1.eq_of_isScalar trivial) (hk.2.eq_of_isScalar trivial)
      have hentry : e = (.text "entry", e.2) := Prod.ext (he.1.eq_of_isScalar trivial) rfl
      have hkind : r = (.text "record", .text "row") :=
        Prod.ext (hr.1.eq_of_isScalar trivial) (hr.2.eq_of_isScalar trivial)
      rw [hkey, hentry, hkind] at hperm
      obtain ⟨fields, hfields, rfl⟩ : ∃ fields : List RowField, fields.Perm RowField.all ∧
          listed = fields.map (RowField.pair key e.2) := Value.exists_perm_of_perm_map hperm
      exact ⟨e.2, fields, he.2, hfields, rfl⟩

/-- **A record that is the same data is read as the record**, with the fields of a row's entry in
any order as well. -/
theorem reads (hr : r.Writable) (h : r.toValue.SameData v) :
    Reads (Record.read maxDepth) v.document r := by
  cases r with
  | header version =>
      obtain ⟨fields, hperm, rfl⟩ := fields_of_sameData_header h
      exact reads_fields hperm (by decide) (by decide) (HeaderField.found version)
        (fun i j hi hj => (HeaderField.eq_kind hi).trans (HeaderField.eq_kind hj).symm)
        (HeaderField.complete? hperm)
  | row key entry =>
      obtain ⟨hkey, hspace⟩ := hr
      obtain ⟨w, fields, hw, hperm, rfl⟩ := fields_of_sameData_row h
      obtain ⟨inner, hinner, rfl⟩ := Entry.fields_of_sameData hw
      have hitem : Reads (readItem .word 125) _ _ := Entry.reads_item_fields hspace hinner
      exact reads_fields hperm (by decide) (by decide) (RowField.found hkey hitem)
        (fun i j hi hj => (RowField.eq_kind hi).trans (RowField.eq_kind hj).symm)
        (RowField.complete? hperm hkey (Entry.ofItem?_fields hinner))

/-- **A row that was written is read back,** if its entry's name has a length that a head can
hold. -/
theorem decode_document_row (hkey : key < UInt64.size)
    (hname : (Utf8.encode entry.space).length < UInt64.size) :
    decode (row key entry).toValue.document = .ok (row key entry) := by
  have hrow : (row key entry).Writable := ⟨hkey, hname⟩
  exact (reads hrow (.refl _)).readAll_eq

end Record
end TraceAtlas
