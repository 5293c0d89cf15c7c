import TraceAtlas.Proofs.RecordCodec

/-!
# What is persisted is decoded from the whole document only

Entries, row keys, lists of rows and records are decoded from their documents to what was encoded,
and from nothing that begins like them: a document that stops short ends too early, and one that
goes on is malformed (`persisted_onlyWhole`). For entries and records the same holds of every
document that lists the fields in another order, those of the entry in a row as well.
-/

namespace TraceAtlas

open Cbor

variable {key : RowKey} {rows : List Row} {depth : Nat}

/-! ## Lengths -/

theorem Cbor.length_head_le (major n : Nat) : (head major n).length ≤ 9 := by
  unfold head
  repeat' split
  all_goals simp

theorem Cbor.length_head_pos (major n : Nat) : 0 < (head major n).length := by
  unfold head
  repeat' split
  all_goals simp

namespace Record

/-- The document of a record fits the memory of a machine, and the key of a row a word of eight
bytes. -/
def Storable : Record → Prop
  | header _ => True
  | row key entry => key < UInt64.size ∧ (row key entry).toValue.document.length < UInt64.size

variable {r : Record}

theorem Storable.writable (h : r.Storable) : r.Writable := by
  cases r with
  | header version => trivial
  | row key entry => exact ⟨h.1, Nat.lt_of_le_of_lt (length_name_le key entry) h.2⟩

theorem length_document_header (version : UInt32) :
    (header version).toValue.document.length = 26 + (head 0 version.toNat).length := by
  have hkind : (Value.text "record").bytesOf.length = 7 := by decide
  have hheader : (Value.text "header").bytesOf.length = 7 := by decide
  have hversion : (Value.text "version").bytesOf.length = 8 := by decide
  have htwo : (head 5 2).length = 1 := by decide
  have hnumber : (Value.int version.toNat).bytesOf = head 0 version.toNat := rfl
  rw [toValue_header_eq, Value.document, Value.bytesOf]
  simp only [Value.bytesOfEntries, List.length_append, List.length_cons, List.length_nil, hkind,
    hheader, hversion, htwo, hnumber, Value.selfDescribed]
  omega

theorem Storable.length_lt (h : r.Storable) : r.toValue.document.length < UInt64.size := by
  cases r with
  | header version =>
      have hhead := length_head_le 0 version.toNat
      rw [length_document_header]
      exact Nat.lt_of_le_of_lt (Nat.add_le_add_left hhead 26) (by decide)
  | row key entry => exact h.2

theorem encode_header (version : UInt32) :
    (header version).encode = .ok (header version).toValue.document := by
  have hversion := Value.fits_natCast (Nat.lt_trans version.toNat_lt (by decide))
  have hfits : (header version).toValue.encodable = true := by
    rw [toValue_header_eq]
    simp only [Value.encodable, Value.encodableEntries, hversion, Bool.and_true]
  rw [encode, Value.encode, if_pos hfits]

theorem Storable.encode_eq (h : r.Storable) : r.encode = .ok r.toValue.document := by
  cases r with
  | header version => exact encode_header version
  | row key entry => exact encode_row h.1

end Record

/-! ## Keys and rows -/

theorem RowKey.reads (hkey : key < UInt64.size) :
    Reads (RowKey.read (depth + 1)) (Value.int key).document key :=
  reads_readNatBelow hkey (reads_document (reads_untagged (reads_unsigned hkey) (by simp) depth))

theorem RowKey.length_document_lt (key : RowKey) :
    (Value.int key).document.length < UInt64.size := by
  have hhead := length_head_le 0 key
  have hlength : (Value.int key).document.length = 3 + (head 0 key).length := List.length_append ..
  rw [hlength]
  exact Nat.lt_of_le_of_lt (Nat.add_le_add_left hhead 3) (by decide)

theorem RowKey.encode_eq (hkey : key < UInt64.size) :
    key.encode = .ok (Value.int key).document := by
  have hfits : (Value.int key).encodable = true := Value.fits_natCast hkey
  rw [RowKey.encode, Value.encode, if_pos hfits]

namespace Row

/-- A row as it is written in a list. -/
def toValue (row : Row) : Value := .array [.int row.1, row.2.toValue]

theorem listToValue_eq (rows : List Row) : listToValue rows = .array (rows.map toValue) := rfl

theorem reads {row : Row} (hkey : row.1 < UInt64.size)
    (hspace : (Utf8.encode row.2.space).length < UInt64.size) :
    Reads (Row.read (depth + 2)) (toValue row).bytesOf row := by
  have hhead := reads_untagged (reads_array (n := 2) (by decide)) (by simp) (depth + 2)
  have hmap := reads_untagged (reads_map (n := 3) (by decide)) (by simp) (depth + 1)
  have hkeyRead : Reads (RowKey.read (depth + 1)) (Value.int row.1).bytesOf row.1 :=
    reads_readNatBelow hkey (reads_untagged (reads_unsigned hkey) (by simp) (depth + 1))
  have hentryRead : Reads (Entry.read (depth + 1)) row.2.toValue.bytesOf row.2 :=
    Entry.reads_fields hspace (.refl _) hmap
  rw [toValue, Value.bytesOf, Value.bytesOfItems, Value.bytesOfItems, Value.bytesOfItems,
    List.append_nil]
  refine hhead.bind ?_
  refine (reads_element hkeyRead 1).bind ?_
  exact (reads_element hentryRead 0).bindLast fun _ => rfl

/-- A row takes at least one byte, and at least as many as the name in its entry. -/
theorem length_toValue_le (row : Row) : 0 < (toValue row).bytesOf.length ∧
    (Utf8.encode row.2.space).length ≤ (toValue row).bytesOf.length := by
  have hhead := length_head_pos 4 [Value.int row.1, row.2.toValue].length
  have hspace := Entry.length_space_le row.2
  simp only [toValue, Value.bytesOf, Value.bytesOfItems, List.length_append]
  omega

theorem length_bytesOfItems_le (rows : List Row) :
    rows.length ≤ (Value.bytesOfItems (rows.map toValue)).length ∧ ∀ row ∈ rows,
      (Utf8.encode row.2.space).length ≤ (Value.bytesOfItems (rows.map toValue)).length := by
  induction rows with
  | nil => simp
  | cons row rows ih =>
      obtain ⟨hlength, hspaces⟩ := ih
      obtain ⟨hpos, hspace⟩ := length_toValue_le row
      rw [List.map_cons, Value.bytesOfItems, List.length_append, List.length_cons]
      refine ⟨by omega, List.forall_mem_cons.mpr ⟨by omega, ?_⟩⟩
      intro r hr
      exact Nat.le_trans (hspaces r hr) (Nat.le_add_left _ _)

theorem encodeList_eq (hkeys : ∀ row ∈ rows, row.1 < UInt64.size) :
    encodeList rows = .ok (listToValue rows).document := by
  have hfits : (listToValue rows).encodable = true := by
    refine Value.encodableItems_eq_true.mpr ?_
    intro v hv
    obtain ⟨row, hrow, rfl⟩ := List.mem_map.mp hv
    simp only [Value.encodable, Value.encodableItems, Entry.encodable_toValue,
      Value.fits_natCast (hkeys row hrow), Bool.and_true]
  rw [encodeList, Value.encode, if_pos hfits]

theorem reads_list (hkeys : ∀ row ∈ rows, row.1 < UInt64.size)
    (hsize : (listToValue rows).document.length < UInt64.size) :
    Reads (Row.readList maxDepth) (listToValue rows).document rows := by
  obtain ⟨hlength, hspaces⟩ := length_bytesOfItems_le rows
  have hdocument : (Value.bytesOfItems (rows.map toValue)).length ≤
      (listToValue rows).document.length := by
    rw [listToValue_eq, Value.document, Value.bytesOf, List.length_append, List.length_append]
    omega
  have hrows : List.Forall₂ (Reads (Row.read 125)) (rows.map fun row => (toValue row).bytesOf)
      rows := by
    rw [List.forall₂_map_left_iff]
    refine List.forall₂_same.mpr fun row hrow => ?_
    have hspace := hspaces row hrow
    exact reads (hkeys row hrow) (by omega)
  have hhead := reads_document
    (reads_untagged (reads_array (n := rows.length) (by omega)) (by simp) 126)
  have hread : Reads (Row.readList maxDepth) _ rows := hhead.bind (reads_times hrows)
  rw [List.append_assoc] at hread
  rw [listToValue_eq, Value.document, Value.bytesOf, Value.bytesOfItems_eq_flatMap,
    List.flatMap_map, List.length_map]
  exact hread

end Row

/-! ## Documents -/

/-- In whatever order data are listed, their documents have the same length. -/
theorem Cbor.Value.SameData.length_document_eq {v w : Value} (h : v.SameData w) :
    v.document.length = w.document.length := by
  rw [Value.document, Value.document, List.length_append, List.length_append, h.length_bytesOf_eq]

/-- **What is persisted is decoded from its whole document and from nothing that begins like it.**
For an entry or a record any document will do that lists the same fields in some order. -/
theorem persisted_onlyWhole :
    (∀ e : Entry, e.encode.length < UInt64.size →
      OnlyWhole Entry.decode e.encode e ∧
      ∀ v, e.toValue.SameData v → OnlyWhole Entry.decode v.document e) ∧
    (∀ key : RowKey, key < UInt64.size →
      ∃ bytes, key.encode = .ok bytes ∧ OnlyWhole RowKey.decode bytes key) ∧
    (∀ rows : List Row, (∀ row ∈ rows, row.1 < UInt64.size) →
      (Row.listToValue rows).document.length < UInt64.size →
      ∃ bytes, Row.encodeList rows = .ok bytes ∧ OnlyWhole Row.decodeList bytes rows) ∧
    ∀ r : Record, r.Storable →
      (∃ bytes, r.encode = .ok bytes ∧ OnlyWhole Record.decode bytes r) ∧
      ∀ v, r.toValue.SameData v → OnlyWhole Record.decode v.document r := by
  refine ⟨fun e hsize => ?_, fun key hkey => ?_, fun rows hkeys hsize => ?_, fun r hr => ?_⟩
  · have hspace : (Utf8.encode e.space).length < UInt64.size := by
      have hle := Entry.length_space_le e
      have hlength : e.encode.length = 3 + e.toValue.bytesOf.length := List.length_append ..
      omega
    have hall : ∀ v, e.toValue.SameData v → OnlyWhole Entry.decode v.document e :=
      fun v h => (Entry.reads hspace h).onlyWhole (h.length_document_eq ▸ hsize)
    exact ⟨hall _ (.refl _), hall⟩
  · refine ⟨(Value.int key).document, RowKey.encode_eq hkey, ?_⟩
    exact (RowKey.reads hkey).onlyWhole (RowKey.length_document_lt key)
  · exact ⟨_, Row.encodeList_eq hkeys, (Row.reads_list hkeys hsize).onlyWhole hsize⟩
  · have hall : ∀ v, r.toValue.SameData v → OnlyWhole Record.decode v.document r :=
      fun v h => (Record.reads hr.writable h).onlyWhole (h.length_document_eq ▸ hr.length_lt)
    exact ⟨⟨_, hr.encode_eq, hall _ (.refl _)⟩, hall⟩

/-- The row of a register bank. -/
def bankRow : Record := .row 1 ⟨"register", 7, 2⟩

/-- The same row with its kind in front, and its entry with the last field in front. -/
def bankRowRelisted : Value := .map [
  (.text "record", .text "row"),
  (.text "entry", .map [
    (.text "frame_level", .int 2),
    (.text "context_key", .int 7),
    (.text "space_name", .text "register")]),
  (.text "key", .int 1)]

theorem sameData_bankRowRelisted : bankRow.toValue.SameData bankRowRelisted :=
  .trans (.entry [(.text "key", .int 1)] [(.text "record", .text "row")] (.refl _)
    (.reorder (List.reverse_perm _).symm)) (.reorder (List.reverse_perm _).symm)

/-- A row is decoded from both documents, but not without the last byte and not with one more. -/
theorem persisted_onlyWhole_bankRow :
    Entry.decode (Entry.unbound "ram").encode = .ok (.unbound "ram") ∧
    (∃ bytes, RowKey.encode 500 = .ok bytes ∧ RowKey.decode bytes = .ok 500) ∧
    (∃ bytes, Row.encodeList [(500, .unbound "ram")] = .ok bytes ∧
      Row.decodeList bytes = .ok [(500, .unbound "ram")]) ∧
    (∃ bytes, bankRow.encode = .ok bytes ∧ Record.decode bytes = .ok bankRow) ∧
    Record.decode bankRowRelisted.document = .ok bankRow ∧
    Record.decode bankRowRelisted.document.dropLast = .error .eof ∧
    Record.decode (bankRowRelisted.document ++ [0]) = .error .malformed := by
  obtain ⟨hentry, hkey, hlist, hrecord⟩ := persisted_onlyWhole
  obtain ⟨hentryWhole, -⟩ := hentry (.unbound "ram") (by decide)
  obtain ⟨keyBytes, hkeyEncode, hkeyWhole⟩ := hkey 500 (by decide)
  obtain ⟨listBytes, hlistEncode, hlistWhole⟩ :=
    hlist [(500, .unbound "ram")] (by decide) (by decide)
  have hstorable : bankRow.Storable := ⟨by decide, by decide⟩
  obtain ⟨⟨bytes, hencode, hwhole⟩, hall⟩ := hrecord bankRow hstorable
  have hrelisted := hall _ sameData_bankRowRelisted
  have hshort := hrelisted.short (List.dropLast_prefix _) (by decide)
  exact ⟨hentryWhole.whole, ⟨keyBytes, hkeyEncode, hkeyWhole.whole⟩,
    ⟨listBytes, hlistEncode, hlistWhole.whole⟩, ⟨bytes, hencode, hwhole.whole⟩, hrelisted.whole,
    hshort, hrelisted.long (by decide)⟩

end TraceAtlas
