import Mathlib.Data.List.Induction
import Mathlib.Order.Basic
import TraceAtlas.Cbor.Item
import TraceAtlas.Proofs.Heads
import TraceAtlas.Proofs.SortedMap

/-!
# Documents are read as they are written

`Value.encode_roundTrip`: every value that is data is written as a document, and the document is
read back as the same value if at most 126 levels stand around its deepest part, and is malformed if
there are more.

What is data is said by `Value.IsData`, which builds a map from any entries of different keys. The
induction over it carries `Value.ReadBack`, which allows any number of levels around a value and any
bytes behind it. A map is read back as the same map because it stands in key order
(`sortEntries_of_inOrder`), and its entries are those it was built from because values of the same
place in that order have the same bytes, which makes them the same value as soon as both are read
back (`eq_of_order_eq`).
-/

namespace TraceAtlas.Cbor
namespace Value

variable {v w : Value} {items : List Value} {entries pairs : List (Value × Value)}

/-! ## Key order -/

instance : Std.TransCmp order :=
  inferInstanceAs (Std.TransCmp (compareLex (compareOn fun v : Value => v.rank.1)
    (compareLex (compareOn fun v => v.rank.2.1) (compareOn fun v => v.rank.2.2))))

/-- The keys stand in strictly increasing order, so no key stands twice. -/
def InOrder (entries : List (Value × Value)) : Prop :=
  entries.Pairwise fun e f => order e.1 f.1 = .lt

theorem sortEntries_concat (pairs : List (Value × Value)) (e : Value × Value) :
    sortEntries (pairs ++ [e]) = insertSorted order e.1 e.2 (sortEntries pairs) := by
  simp [sortEntries]

theorem inOrder_sortEntries (pairs : List (Value × Value)) : InOrder (sortEntries pairs) := by
  induction pairs using List.reverseRecOn with
  | nil => exact .nil
  | append_singleton pairs e ih =>
      rw [sortEntries_concat]
      exact SortedMap.pairwise_insertSorted _ _ ih

theorem sortEntries_of_inOrder (h : InOrder entries) : sortEntries entries = entries := by
  induction entries using List.reverseRecOn with
  | nil => rfl
  | append_singleton entries e ih =>
      obtain ⟨hentries, -, hlast⟩ := List.pairwise_append.mp h
      rw [sortEntries_concat, ih hentries]
      apply SortedMap.insertSorted_of_forall_gt
      intro f hf
      exact Std.OrientedCmp.gt_of_lt (hlast f hf e (List.mem_singleton_self e))

theorem sortEntries_perm (h : pairs.Pairwise fun e f => order f.1 e.1 ≠ .eq) :
    (sortEntries pairs).Perm pairs := by
  induction pairs using List.reverseRecOn with
  | nil => exact .nil
  | append_singleton pairs e ih =>
      obtain ⟨hpairs, -, hlast⟩ := List.pairwise_append.mp h
      have hperm := ih hpairs
      rw [sortEntries_concat]
      refine (SortedMap.insertSorted_perm ?_).trans ?_
      · intro f hf
        exact hlast f (hperm.mem_iff.mp hf) e (List.mem_singleton_self e)
      · exact (hperm.cons e).trans (List.perm_append_singleton e pairs).symm

/-! ## Reading back -/

/-- The bytes of `v` are read as an item that stands for `v`, whatever follows them, if the levels
of `v` are allowed, and are malformed if they are not. -/
def ReadBack (v : Value) : Prop :=
  ∃ x : Item, x.toValue = v ∧ ∀ depth rest, readItem .anyHead depth (v.bytesOf ++ rest) =
    if v.depth ≤ depth then .ok (x, rest) else .error .malformed

/-- A value without levels needs no levels. -/
theorem readBack_of_depth_eq_zero {x : Item} (hx : x.toValue = v) (hdepth : v.depth = 0)
    (hread : ∀ depth rest, readItem .anyHead depth (v.bytesOf ++ rest) = .ok (x, rest)) :
    v.ReadBack := by
  refine ⟨x, hx, ?_⟩
  intro depth rest
  rw [hread, hdepth, if_pos (Nat.zero_le depth)]

theorem readBack_null : ReadBack .null := by
  refine readBack_of_depth_eq_zero (x := .null) rfl rfl ?_
  intro depth rest
  unfold readItem
  rfl

theorem readBack_bool (b : Bool) : ReadBack (.bool b) := by
  refine readBack_of_depth_eq_zero (x := .bool b) rfl rfl ?_
  intro depth rest
  unfold readItem
  cases b <;> rfl

theorem readBack_int {i : Int} (h : fits i = true) : ReadBack (.int i) := by
  simp only [fits, Bool.and_eq_true, decide_eq_true_eq] at h
  cases i with
  | ofNat n =>
      have hn : n < UInt64.size := Int.ofNat_lt.mp h.2
      refine readBack_of_depth_eq_zero (x := .unsigned (Width.of n) n) rfl rfl ?_
      intro depth rest
      unfold readItem
      simp only [bytesOf, intBytes, readHead_unsigned hn]
  | negSucc n =>
      have hn : n < UInt64.size := by omega
      refine readBack_of_depth_eq_zero (x := .negative n) rfl rfl ?_
      intro depth rest
      unfold readItem
      simp only [bytesOf, intBytes, readHead_negative hn, Range.admits, if_true]

theorem readBack_float (x : Binary64) : ReadBack (.float x) := by
  refine readBack_of_depth_eq_zero (x := .float x) rfl rfl ?_
  intro depth rest
  unfold readItem
  simp only [bytesOf, readHead_float]

theorem readBack_bytes {bs : List UInt8} (h : bs.length < UInt64.size) : ReadBack (.bytes bs) := by
  refine readBack_of_depth_eq_zero (x := .bytes bs) rfl rfl ?_
  intro depth rest
  unfold readItem
  simp only [bytesOf, readHead_bytes h]

theorem readBack_text {s : String} (h : (Utf8.encode s).length < UInt64.size) :
    ReadBack (.text s) := by
  refine readBack_of_depth_eq_zero (x := .text s) rfl rfl ?_
  intro depth rest
  unfold readItem
  simp only [bytesOf, readHead_text h]

theorem readTimes_items (h : ∀ v ∈ items, ReadBack v) :
    ∃ xs, Item.toValues xs = items ∧ ∀ depth rest,
      readTimes (readItem .anyHead depth) items.length (bytesOfItems items ++ rest) =
        if depthItems items ≤ depth then .ok (xs, rest) else .error .malformed := by
  induction items with
  | nil =>
      refine ⟨[], rfl, ?_⟩
      intro depth rest
      rw [depthItems, if_pos (Nat.zero_le depth)]
      rfl
  | cons v items ih =>
      obtain ⟨hv, hitems⟩ := List.forall_mem_cons.mp h
      obtain ⟨x, rfl, hread⟩ := hv
      obtain ⟨xs, rfl, hreads⟩ := ih hitems
      refine ⟨x :: xs, rfl, ?_⟩
      intro depth rest
      simp only [List.length_cons, readTimes, bytesOfItems, List.append_assoc, hread, depthItems,
        Nat.max_le]
      by_cases hfits : x.toValue.depth ≤ depth
      · by_cases hmore : depthItems (Item.toValues xs) ≤ depth <;>
          simp [hfits, hmore, hreads, bind, Except.bind]
      · simp [hfits, bind, Except.bind]

theorem readTimes_entries (h : ∀ e ∈ entries, ReadBack e.1 ∧ ReadBack e.2) :
    ∃ xs, Item.toPairs xs = entries ∧ ∀ depth rest,
      readTimes (readEntry (readItem .anyHead depth)) entries.length
          (bytesOfEntries entries ++ rest) =
        if depthEntries entries ≤ depth then .ok (xs, rest) else .error .malformed := by
  induction entries with
  | nil =>
      refine ⟨[], rfl, ?_⟩
      intro depth rest
      rw [depthEntries, if_pos (Nat.zero_le depth)]
      rfl
  | cons e entries ih =>
      obtain ⟨⟨hkey, hvalue⟩, hentries⟩ := List.forall_mem_cons.mp h
      obtain ⟨k, v⟩ := e
      obtain ⟨x, rfl, hreadKey⟩ := hkey
      obtain ⟨y, rfl, hreadValue⟩ := hvalue
      obtain ⟨xs, rfl, hreads⟩ := ih hentries
      refine ⟨(x, y) :: xs, rfl, ?_⟩
      intro depth rest
      simp only [List.length_cons, readTimes, readEntry, bytesOfEntries, List.append_assoc,
        hreadKey, depthEntries, Nat.max_le]
      by_cases hfits : x.toValue.depth ≤ depth
      · by_cases hfits' : y.toValue.depth ≤ depth
        · by_cases hmore : depthEntries (Item.toPairs xs) ≤ depth <;>
            simp [hfits, hfits', hmore, hreadValue, hreads, bind, Except.bind]
        · simp [hfits, hfits', hreadValue, bind, Except.bind]
      · simp [hfits, bind, Except.bind]

theorem readBack_array (hlength : items.length < UInt64.size) (h : ∀ v ∈ items, ReadBack v) :
    ReadBack (.array items) := by
  obtain ⟨xs, hxs, hreads⟩ := readTimes_items h
  refine ⟨.array xs, congrArg _ hxs, ?_⟩
  intro levels rest
  unfold readItem
  simp only [bytesOf, List.append_assoc, readHead_array hlength, Value.depth]
  cases levels with
  | zero => simp
  | succ levels =>
      by_cases hfits : depthItems items ≤ levels <;>
        simp [readMany, hreads, hfits, bind, Except.bind]

theorem readBack_map (hlength : entries.length < UInt64.size) (horder : InOrder entries)
    (h : ∀ e ∈ entries, ReadBack e.1 ∧ ReadBack e.2) : ReadBack (.map entries) := by
  obtain ⟨xs, hxs, hreads⟩ := readTimes_entries h
  have hvalue : (Item.map xs).toValue = .map entries := by
    simp only [Item.toValue, ofPairs, hxs, sortEntries_of_inOrder horder]
  refine ⟨.map xs, hvalue, ?_⟩
  intro levels rest
  unfold readItem
  simp only [bytesOf, List.append_assoc, readHead_map hlength, Value.depth]
  cases levels with
  | zero => simp
  | succ levels =>
      by_cases hfits : depthEntries entries ≤ levels <;>
        simp [readMany, hreads, hfits, bind, Except.bind]

/-! ## Keys of the same place -/

/-- The bytes of a value that is read back tell it from every other, whatever they go on with. -/
theorem eq_of_bytesOf_prefix (hv : v.ReadBack) (hw : w.ReadBack) (h : v.bytesOf <+: w.bytesOf) :
    v = w := by
  obtain ⟨rest, hrest⟩ := h
  obtain ⟨x, hx, hreadx⟩ := hv
  obtain ⟨y, hy, hready⟩ := hw
  have hread := hreadx (max v.depth w.depth) rest
  have hread' := hready (max v.depth w.depth) []
  rw [List.append_nil, if_pos (Nat.le_max_right _ _)] at hread'
  rw [hrest, hread', if_pos (Nat.le_max_left _ _)] at hread
  cases hread
  exact hx.symm.trans hy

/-- The bytes that a rank is of. -/
def bytesOfRank : Nat × Nat × List UInt8 → List UInt8
  | (0, n, _) => head 0 n
  | (1, n, _) => head 1 (n - 1)
  | (2, n, bs) => head 2 n ++ bs
  | (3, n, bs) => head 3 n ++ bs
  | (_, _, bs) => bs

theorem bytesOfRank_rank (v : Value) : bytesOfRank v.rank = v.bytesOf := by
  cases v with
  | int i => cases i <;> rfl
  | _ => rfl

theorem eq_of_order_eq (hv : v.ReadBack) (hw : w.ReadBack) (h : order v w = .eq) : v = w := by
  obtain ⟨hmajor, h⟩ := Ordering.then_eq_eq.mp h
  obtain ⟨hsize, hbytes⟩ := Ordering.then_eq_eq.mp h
  have hrank : v.rank = w.rank := Prod.ext (Std.compare_eq_iff_eq.mp hmajor)
    (Prod.ext (Std.compare_eq_iff_eq.mp hsize) (Std.compare_eq_iff_eq.mp hbytes))
  have hbytes : v.bytesOf = w.bytesOf := by
    rw [← bytesOfRank_rank, hrank, bytesOfRank_rank]
  exact eq_of_bytesOf_prefix hv hw (hbytes ▸ List.prefix_rfl)

/-- Entries of different keys are all kept when they are sorted. -/
theorem sortEntries_perm_of_nodup (hkeys : (pairs.map Prod.fst).Nodup)
    (h : ∀ e ∈ pairs, ReadBack e.1) : (sortEntries pairs).Perm pairs := by
  apply sortEntries_perm
  refine List.Pairwise.imp_of_mem ?_ (List.pairwise_map.mp hkeys)
  intro e f he hf hne hsame
  exact hne (eq_of_order_eq (h f hf) (h e he) hsame).symm

/-! ## Data -/

/-- A value that is data: integers fit a head, lengths fit the memory of a machine, and a map is
built from entries of different keys. -/
inductive IsData : Value → Prop where
  | null : IsData .null
  | bool (b : Bool) : IsData (.bool b)
  | int {i : Int} (hfits : fits i = true) : IsData (.int i)
  | float (x : Binary64) : IsData (.float x)
  | bytes {bs : List UInt8} (hlength : bs.length < UInt64.size) : IsData (.bytes bs)
  | text {s : String} (hlength : (Utf8.encode s).length < UInt64.size) : IsData (.text s)
  | array {items : List Value} (hlength : items.length < UInt64.size)
      (hitems : ∀ v ∈ items, IsData v) : IsData (.array items)
  | map {pairs : List (Value × Value)} (hlength : pairs.length < UInt64.size)
      (hdistinct : (pairs.map Prod.fst).Nodup) (hkeys : ∀ e ∈ pairs, IsData e.1)
      (hvalues : ∀ e ∈ pairs, IsData e.2) : IsData (.ofPairs pairs)

theorem IsData.readBack (h : v.IsData) : v.ReadBack := by
  induction h with
  | null => exact readBack_null
  | bool b => exact readBack_bool b
  | int hfits => exact readBack_int hfits
  | float x => exact readBack_float x
  | bytes hlength => exact readBack_bytes hlength
  | text hlength => exact readBack_text hlength
  | array hlength _ ih => exact readBack_array hlength ih
  | @map pairs hlength hdistinct _ _ ihkeys ihvalues =>
      have hperm := sortEntries_perm_of_nodup hdistinct ihkeys
      refine readBack_map (hperm.length_eq ▸ hlength) (inOrder_sortEntries pairs) ?_
      intro e he
      have hmem := hperm.mem_iff.mp he
      exact ⟨ihkeys e hmem, ihvalues e hmem⟩

theorem encodableItems_eq_true : encodableItems items = true ↔ ∀ v ∈ items, v.encodable = true := by
  induction items with
  | nil => simp [encodableItems]
  | cons v items ih => simp [encodableItems, ih]

theorem encodableEntries_eq_true : encodableEntries entries = true ↔
    ∀ e ∈ entries, e.1.encodable = true ∧ e.2.encodable = true := by
  induction entries with
  | nil => simp [encodableEntries]
  | cons e entries ih => simp [encodableEntries, ih]

theorem IsData.encodable (h : v.IsData) : v.encodable = true := by
  induction h with
  | int hfits => exact hfits
  | array _ _ ih => exact encodableItems_eq_true.mpr ih
  | @map pairs _ hdistinct hkeys _ ihkeys ihvalues =>
      have hperm := sortEntries_perm_of_nodup hdistinct fun e he => (hkeys e he).readBack
      refine encodableEntries_eq_true.mpr ?_
      intro e he
      have hmem := hperm.mem_iff.mp he
      exact ⟨ihkeys e hmem, ihvalues e hmem⟩
  | _ => rfl

/-! ## Whole documents -/

theorem decode_document (h : v.ReadBack) :
    decode v.document = if v.depth ≤ 126 then .ok v else .error .malformed := by
  obtain ⟨x, hx, hread⟩ := h
  have hitem := hread 126 []
  rw [List.append_nil] at hitem
  unfold decode readAll document readItem
  simp only [readHead_selfDescribed, maxDepth, hitem]
  by_cases hfits : v.depth ≤ 126
  · simp [hfits, hx, Except.map]
  · simp [hfits, Flaw.toError, Except.map]

/-- **Every value that is data has a document, and its document gives it back** as long as no more
than 126 arrays and maps stand around its deepest part: the tag in front takes one of the 127 levels
that are allowed. The document of a value with more levels is malformed. -/
theorem encode_roundTrip (h : v.IsData) : ∃ bytes, v.encode = .ok bytes ∧
    (decode bytes = .ok v ↔ v.depth ≤ 126) ∧
    (126 < v.depth → decode bytes = .error .malformed) := by
  refine ⟨v.document, ?_, ?_, ?_⟩
  · rw [encode, if_pos h.encodable]
  · rw [decode_document h.readBack]
    by_cases hfits : v.depth ≤ 126 <;> simp [hfits]
  · intro hdeep
    rw [decode_document h.readBack, if_neg (Nat.not_le.mpr hdeep)]

/-- A map that is keyed by an array and by a map. -/
def keyed : Value := .ofPairs [
  (.ofPairs [(.null, .bool true)], .bytes [0, 255]),
  (.array [.float .nan, .int (-UInt64.size)], .text "é")]

/-- A value inside so many arrays. -/
def within (v : Value) : Nat → Value
  | 0 => v
  | n + 1 => .array [within v n]

theorem isData_keyed : IsData keyed := by
  have hinner : IsData (.ofPairs [(.null, .bool true)]) :=
    .map (by decide) (by simp) (by simpa using .null) (by simpa using .bool true)
  have hkey : IsData (.array [.float .nan, .int (-UInt64.size)]) :=
    .array (by decide) (by simpa using ⟨.float _, .int (by decide)⟩)
  exact .map (by decide) (by simp [ofPairs]) (by simpa using ⟨hinner, hkey⟩)
    (by simpa using ⟨.bytes (by decide), .text (by decide)⟩)

theorem IsData.within (h : v.IsData) (n : Nat) : (v.within n).IsData := by
  induction n with
  | zero => exact h
  | succ n ih => exact .array (show 1 < UInt64.size by decide) (by simpa using ih)

theorem depth_within (n : Nat) (v : Value) : (v.within n).depth = v.depth + n := by
  induction n with
  | zero => rfl
  | succ n ih => simp [Value.within, Value.depth, depthItems, ih, Nat.add_assoc]

theorem encode_roundTrip_within :
    (∃ bytes, (keyed.within 124).encode = .ok bytes ∧ decode bytes = .ok (keyed.within 124)) ∧
    (∃ bytes, (keyed.within 125).encode = .ok bytes ∧ decode bytes = .error .malformed) := by
  have hdepth : keyed.depth = 2 := by decide
  constructor
  · obtain ⟨bytes, hencode, hdecode, -⟩ := encode_roundTrip (isData_keyed.within 124)
    refine ⟨bytes, hencode, hdecode.mpr ?_⟩
    rw [depth_within, hdepth]
  · obtain ⟨bytes, hencode, -, hdeep⟩ := encode_roundTrip (isData_keyed.within 125)
    refine ⟨bytes, hencode, hdeep ?_⟩
    rw [depth_within, hdepth]
    decide

end Value
end TraceAtlas.Cbor
