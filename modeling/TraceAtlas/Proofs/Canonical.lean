import TraceAtlas.Proofs.Documents

/-!
# The encoding is canonical and prefix-free

`Value.encode_canonical`: of two values the bytes of one are a prefix of the bytes of the other only
if both are the same data, and values that are the same data have the same bytes, in whatever order
the entries of their maps were inserted. The keys of every map are written once each and in
increasing order.

A value lists the entries of a map in the order in which they are inserted, and `Value.assemble` is
the value that comes of it: every map, those inside keys included, filled entry by entry. What is
the same data is said without any order of keys by `Value.SameData`, and the order of keys is
spelled out by `Value.Precedes`. Prefixes are told apart by reading: both byte strings are read as
an item with what follows it, so neither can go on where the other has ended.
-/

namespace TraceAtlas.Cbor
namespace Value

variable {u v w : Value} {items : List Value} {entries pairs : List (Value × Value)}

/-! ## Values as they are put together -/

mutual
/-- The value with every map in it filled entry by entry, as its entries are listed. -/
def assemble : Value → Value
  | .array items => .array (assembleItems items)
  | .map entries => .ofPairs (assembleEntries entries)
  | v => v

def assembleItems : List Value → List Value
  | [] => []
  | v :: vs => assemble v :: assembleItems vs

def assembleEntries : List (Value × Value) → List (Value × Value)
  | [] => []
  | (k, v) :: es => (assemble k, assemble v) :: assembleEntries es
end

theorem assembleItems_eq_map (items : List Value) : assembleItems items = items.map assemble := by
  induction items with
  | nil => rfl
  | cons v items ih => rw [assembleItems, ih, List.map_cons]

theorem assembleEntries_eq_map (entries : List (Value × Value)) :
    assembleEntries entries = entries.map fun e => (e.1.assemble, e.2.assemble) := by
  induction entries with
  | nil => rfl
  | cons e entries ih => rw [assembleEntries, ih, List.map_cons]

/-! ## The same data -/

/-- Two values are the same data if they differ in nothing but the order in which the entries of
their maps are listed, at any depth. -/
inductive SameData : Value → Value → Prop where
  | refl (v : Value) : SameData v v
  | trans {u v w : Value} (huv : SameData u v) (hvw : SameData v w) : SameData u w
  | reorder {entries entries' : List (Value × Value)} (hperm : entries.Perm entries') :
      SameData (.map entries) (.map entries')
  | item (front back : List Value) {v w : Value} (h : SameData v w) :
      SameData (.array (front ++ v :: back)) (.array (front ++ w :: back))
  | entry (front back : List (Value × Value)) {k l v w : Value} (hkey : SameData k l)
      (hvalue : SameData v w) :
      SameData (.map (front ++ (k, v) :: back)) (.map (front ++ (l, w) :: back))

namespace SameData

theorem symm (h : v.SameData w) : w.SameData v := by
  induction h with
  | refl v => exact .refl v
  | trans _ _ ih ih' => exact .trans ih' ih
  | reorder hperm => exact .reorder hperm.symm
  | item front back _ ih => exact .item front back ih
  | entry front back _ _ ih ih' => exact .entry front back ih ih'

theorem map_items {f : Value → Value} (front : List Value) (h : ∀ v ∈ items, v.SameData (f v)) :
    SameData (.array (front ++ items)) (.array (front ++ items.map f)) := by
  induction items generalizing front with
  | nil => exact .refl _
  | cons v items ih =>
      obtain ⟨hv, hitems⟩ := List.forall_mem_cons.mp h
      have hback := ih (front ++ [f v]) hitems
      simp only [List.append_assoc, List.singleton_append] at hback
      exact .trans (.item front items hv) hback

theorem map_entries {f : Value → Value} (front : List (Value × Value))
    (h : ∀ e ∈ entries, e.1.SameData (f e.1) ∧ e.2.SameData (f e.2)) :
    SameData (.map (front ++ entries))
      (.map (front ++ entries.map fun e => (f e.1, f e.2))) := by
  induction entries generalizing front with
  | nil => exact .refl _
  | cons e entries ih =>
      obtain ⟨⟨hkey, hvalue⟩, hentries⟩ := List.forall_mem_cons.mp h
      have hback := ih (front ++ [(f e.1, f e.2)]) hentries
      simp only [List.append_assoc, List.singleton_append] at hback
      exact .trans (.entry front entries hkey hvalue) hback

end SameData

/-- A value that may be put together: integers fit a head, lengths fit the memory of a machine, and
the keys of a map are different data. -/
inductive Sound : Value → Prop where
  | null : Sound .null
  | bool (b : Bool) : Sound (.bool b)
  | int {i : Int} (hfits : fits i = true) : Sound (.int i)
  | float (x : Binary64) : Sound (.float x)
  | bytes {bs : List UInt8} (hlength : bs.length < UInt64.size) : Sound (.bytes bs)
  | text {s : String} (hlength : (Utf8.encode s).length < UInt64.size) : Sound (.text s)
  | array {items : List Value} (hlength : items.length < UInt64.size)
      (hitems : ∀ v ∈ items, Sound v) : Sound (.array items)
  | map {entries : List (Value × Value)} (hlength : entries.length < UInt64.size)
      (hdistinct : entries.Pairwise fun e f => ¬ e.1.SameData f.1)
      (hkeys : ∀ e ∈ entries, Sound e.1) (hvalues : ∀ e ∈ entries, Sound e.2) :
      Sound (.map entries)

/-- Keys that are different data stay different when they are put together. -/
theorem nodup_assembled_keys (hdistinct : entries.Pairwise fun e f => ¬ e.1.SameData f.1)
    (h : ∀ e ∈ entries, e.1.SameData e.1.assemble) :
    ((assembleEntries entries).map Prod.fst).Nodup := by
  rw [assembleEntries_eq_map, List.map_map, List.Nodup, List.pairwise_map]
  refine List.Pairwise.imp_of_mem ?_ hdistinct
  intro e f he hf hne hsame
  have hkey : e.1.assemble = f.1.assemble := hsame
  exact hne ((h e he).trans (hkey ▸ (h f hf).symm))

/-- Putting a value together gives data, and the same data. -/
theorem Sound.assemble (h : v.Sound) : v.assemble.IsData ∧ v.SameData v.assemble := by
  induction h with
  | null => exact ⟨.null, .refl _⟩
  | bool b => exact ⟨.bool b, .refl _⟩
  | int hfits => exact ⟨.int hfits, .refl _⟩
  | float x => exact ⟨.float x, .refl _⟩
  | bytes hlength => exact ⟨.bytes hlength, .refl _⟩
  | text hlength => exact ⟨.text hlength, .refl _⟩
  | @array items hlength _ ih =>
      rw [Value.assemble, assembleItems_eq_map]
      constructor
      · refine .array (by simpa using hlength) ?_
        intro w hw
        obtain ⟨v, hv, rfl⟩ := List.mem_map.mp hw
        exact (ih v hv).1
      · exact SameData.map_items [] fun v hv => (ih v hv).2
  | @map entries hlength hdistinct _ _ ihkeys ihvalues =>
      have hnodup := nodup_assembled_keys hdistinct fun e he => (ihkeys e he).2
      have hparts : ∀ e ∈ assembleEntries entries, e.1.IsData ∧ e.2.IsData := by
        intro f hf
        rw [assembleEntries_eq_map] at hf
        obtain ⟨e, he, rfl⟩ := List.mem_map.mp hf
        exact ⟨(ihkeys e he).1, (ihvalues e he).1⟩
      have hsorted : (sortEntries (assembleEntries entries)).Perm (assembleEntries entries) :=
        sortEntries_perm_of_nodup hnodup fun e he => (hparts e he).1.readBack
      rw [Value.assemble]
      constructor
      · refine .map ?_ hnodup (fun e he => (hparts e he).1) fun e he => (hparts e he).2
        simpa [assembleEntries_eq_map] using hlength
      · refine .trans ?_ (.reorder hsorted.symm)
        rw [assembleEntries_eq_map]
        exact SameData.map_entries [] fun e he => ⟨(ihkeys e he).2, (ihvalues e he).2⟩

/-! ## The order of insertion leaves no trace -/

/-- Entries of different keys are sorted the same way in whatever order they come. -/
theorem sortEntries_eq_of_perm (hperm : entries.Perm pairs) (hkeys : (entries.map Prod.fst).Nodup)
    (h : ∀ e ∈ entries, ReadBack e.1) : sortEntries entries = sortEntries pairs := by
  have hentries : (sortEntries entries).Perm entries := sortEntries_perm_of_nodup hkeys h
  have hpairs : (sortEntries pairs).Perm pairs :=
    sortEntries_perm_of_nodup ((hperm.map Prod.fst).nodup_iff.mp hkeys)
      fun e he => h e (hperm.mem_iff.mpr he)
  refine List.Perm.eq_of_pairwise ?_ (inOrder_sortEntries entries) (inOrder_sortEntries pairs)
    (hentries.trans (hperm.trans hpairs.symm))
  intro e f _ _ hlt hgt
  rw [Std.OrientedCmp.gt_of_lt hgt] at hlt
  cases hlt

/-- The same data is put together alike, and is sound alike. -/
theorem SameData.assemble_eq (h : v.SameData w) (hv : v.Sound) :
    w.Sound ∧ v.assemble = w.assemble := by
  induction h with
  | refl v => exact ⟨hv, rfl⟩
  | trans _ _ ih ih' =>
      obtain ⟨hmid, heq⟩ := ih hv
      obtain ⟨hlast, heq'⟩ := ih' hmid
      exact ⟨hlast, heq.trans heq'⟩
  | reorder hperm =>
      cases hv with
      | map hlength hdistinct hkeys hvalues =>
        constructor
        · refine .map (hperm.length_eq ▸ hlength) ?_ (fun e he => hkeys e (hperm.mem_iff.mpr he))
            fun e he => hvalues e (hperm.mem_iff.mpr he)
          exact (hperm.pairwise_iff fun hne hsame => hne hsame.symm).mp hdistinct
        · rw [Value.assemble, Value.assemble, ofPairs, ofPairs]
          congr 1
          refine sortEntries_eq_of_perm ?_
            (nodup_assembled_keys hdistinct fun e he => (hkeys e he).assemble.2) ?_
          · rw [assembleEntries_eq_map, assembleEntries_eq_map]
            exact hperm.map _
          · rw [assembleEntries_eq_map]
            intro f hf
            obtain ⟨e, he, rfl⟩ := List.mem_map.mp hf
            exact (hkeys e he).assemble.1.readBack
  | item front back _ ih =>
      cases hv with
      | array hlength hitems =>
        obtain ⟨hfront, hback⟩ := List.forall_mem_append.mp hitems
        obtain ⟨hv, hback⟩ := List.forall_mem_cons.mp hback
        obtain ⟨hw, heq⟩ := ih hv
        constructor
        · refine .array (by simpa using hlength) ?_
          exact List.forall_mem_append.mpr ⟨hfront, List.forall_mem_cons.mpr ⟨hw, hback⟩⟩
        · simp only [Value.assemble, assembleItems_eq_map, List.map_append, List.map_cons, heq]
  | @entry front back k l v w hkey _ ihkey ihvalue =>
      cases hv with
      | map hlength hdistinct hkeys hvalues =>
        obtain ⟨hfrontKeys, hbackKeys⟩ := List.forall_mem_append.mp hkeys
        obtain ⟨hk, hbackKeys⟩ := List.forall_mem_cons.mp hbackKeys
        obtain ⟨hfrontValues, hbackValues⟩ := List.forall_mem_append.mp hvalues
        obtain ⟨hv, hbackValues⟩ := List.forall_mem_cons.mp hbackValues
        obtain ⟨hl, heqKey⟩ := ihkey hk
        obtain ⟨hw, heqValue⟩ := ihvalue hv
        constructor
        · refine .map (by simpa using hlength) ?_
            (List.forall_mem_append.mpr ⟨hfrontKeys, List.forall_mem_cons.mpr ⟨hl, hbackKeys⟩⟩)
            (List.forall_mem_append.mpr ⟨hfrontValues, List.forall_mem_cons.mpr ⟨hw, hbackValues⟩⟩)
          -- the new key is the same data as the old one, so it differs from the same keys
          obtain ⟨hfront, hback, happart⟩ := List.pairwise_append.mp hdistinct
          obtain ⟨hkback, hback⟩ := List.pairwise_cons.mp hback
          refine List.pairwise_append.mpr ⟨hfront, List.pairwise_cons.mpr ⟨?_, hback⟩, ?_⟩
          · intro f hf hsame
            exact hkback f hf (hkey.trans hsame)
          · intro e he f hf hsame
            rcases List.mem_cons.mp hf with rfl | hf
            · exact happart e he _ List.mem_cons_self (hsame.trans hkey.symm)
            · exact happart e he f (List.mem_cons_of_mem _ hf) hsame
        · simp only [Value.assemble, assembleEntries_eq_map, List.map_append, List.map_cons,
            heqKey, heqValue]

/-! ## Key order spelled out -/

/-- The major type with which the bytes of a value begin. -/
def major : Value → Nat
  | .int (.ofNat _) => 0
  | .int (.negSucc _) => 1
  | .bytes _ => 2
  | .text _ => 3
  | .array _ => 4
  | .map _ => 5
  | _ => 7

/-- The smaller size first; where the sizes are equal, bytes decide from the first one on. -/
def SizeThenBytes (m n : Nat) (bs cs : List UInt8) : Prop := m < n ∨ m = n ∧ bs < cs

/-- `v` stands before `w` among the keys of a map: the smaller major type comes first, and within
one major type the smaller magnitude of integers, the shorter string (then its bytes), the shorter
array or map (then its encoded bytes), and of all other values the smaller encoded bytes. -/
inductive Precedes : Value → Value → Prop where
  | major {v w : Value} (h : v.major < w.major) : Precedes v w
  | int {i j : Int} (hmajor : (Value.int i).major = (Value.int j).major)
      (h : i.natAbs < j.natAbs) : Precedes (.int i) (.int j)
  | bytes {bs cs : List UInt8} (h : SizeThenBytes bs.length cs.length bs cs) :
      Precedes (.bytes bs) (.bytes cs)
  | text {s t : String} (h : SizeThenBytes (Utf8.encode s).length (Utf8.encode t).length
      (Utf8.encode s) (Utf8.encode t)) : Precedes (.text s) (.text t)
  | array {xs ys : List Value} (h : SizeThenBytes xs.length ys.length
      (bytesOf (.array xs)) (bytesOf (.array ys))) : Precedes (.array xs) (.array ys)
  | map {es fs : List (Value × Value)} (h : SizeThenBytes es.length fs.length
      (bytesOf (.map es)) (bytesOf (.map fs))) : Precedes (.map es) (.map fs)
  | simple {v w : Value} (hv : v.major = 7) (hw : w.major = 7) (h : v.bytesOf < w.bytesOf) :
      Precedes v w

theorem rank_fst (v : Value) : v.rank.1 = v.major := by
  cases v with
  | int i => cases i <;> rfl
  | _ => rfl

theorem compare_eq_lt_iff_lt {bs cs : List UInt8} : compare bs cs = .lt ↔ bs < cs := by
  induction bs generalizing cs with
  | nil => cases cs <;> simp
  | cons b bs ih =>
      cases cs with
      | nil => simp
      | cons c cs =>
          rw [List.compare_eq_compareLex, List.compareLex_cons_cons,
            ← List.compare_eq_compareLex, Ordering.then_eq_lt, ih, List.cons_lt_cons_iff,
            Std.compare_eq_lt, Std.compare_eq_iff_eq]

theorem order_eq_lt_iff : order v w = .lt ↔ v.major < w.major ∨ v.major = w.major ∧
    SizeThenBytes v.rank.2.1 w.rank.2.1 v.rank.2.2 w.rank.2.2 := by
  rw [order, Ordering.then_eq_lt, Ordering.then_eq_lt, SizeThenBytes, rank_fst, rank_fst,
    Nat.compare_eq_lt, Nat.compare_eq_eq, Nat.compare_eq_lt, Nat.compare_eq_eq,
    compare_eq_lt_iff_lt]

theorem rank_of_major_eq_seven (h : v.major = 7) : v.rank = (7, 0, v.bytesOf) := by
  cases v with
  | int i => cases i <;> cases h
  | null | bool | float => rfl
  | _ => cases h

theorem rank_int (i : Int) : (Value.int i).rank.2 = (i.natAbs, []) := by
  cases i <;> rfl

/-- The order by which maps are sorted is the order that is spelled out. -/
theorem precedes_of_order (h : order v w = .lt) : Precedes v w := by
  rcases order_eq_lt_iff.mp h with hmajor | ⟨hsame, hsize⟩
  · exact .major hmajor
  cases v with
  | int i =>
      cases w with
      | int j =>
          rw [rank_int, rank_int] at hsize
          exact .int hsame (hsize.resolve_right fun h => List.lt_irrefl _ h.2)
      | _ => cases i <;> cases hsame
  | bytes bs =>
      cases w with
      | bytes cs => exact .bytes hsize
      | int j => cases j <;> cases hsame
      | _ => cases hsame
  | text s =>
      cases w with
      | text t => exact .text hsize
      | int j => cases j <;> cases hsame
      | _ => cases hsame
  | array xs =>
      cases w with
      | array ys => exact .array hsize
      | int j => cases j <;> cases hsame
      | _ => cases hsame
  | map es =>
      cases w with
      | map fs => exact .map hsize
      | int j => cases j <;> cases hsame
      | _ => cases hsame
  | null | bool | float =>
      rw [rank_of_major_eq_seven rfl, rank_of_major_eq_seven hsame.symm] at hsize
      exact .simple rfl hsame.symm (hsize.resolve_left (Nat.lt_irrefl 0)).2

theorem Precedes.order_eq_lt (h : Precedes v w) : order v w = .lt := by
  rw [order_eq_lt_iff]
  cases h with
  | major h => exact .inl h
  | int hmajor h =>
      rw [rank_int, rank_int]
      exact .inr ⟨hmajor, .inl h⟩
  | simple hv hw h =>
      rw [rank_of_major_eq_seven hv, rank_of_major_eq_seven hw]
      exact .inr ⟨hv.trans hw.symm, .inr ⟨rfl, h⟩⟩
  | bytes h | text h | array h | map h => exact .inr ⟨rfl, h⟩

/-- Nothing stands before itself, so keys that stand one before the other are different. -/
theorem Precedes.ne (h : Precedes v w) : v ≠ w := by
  rintro rfl
  have hself : order v v = .eq := Std.ReflCmp.compare_self
  rw [h.order_eq_lt] at hself
  cases hself

/-! ## Every map inside a value -/

/-- `p` stands somewhere in a value: it is the value, or stands in an item, key or value of it. -/
inductive Part (p : Value) : Value → Prop where
  | whole : Part p p
  | item {items : List Value} {v : Value} (hv : v ∈ items) (h : Part p v) : Part p (.array items)
  | key {entries : List (Value × Value)} {e : Value × Value} (he : e ∈ entries)
      (h : Part p e.1) : Part p (.map entries)
  | value {entries : List (Value × Value)} {e : Value × Value} (he : e ∈ entries)
      (h : Part p e.2) : Part p (.map entries)

theorem IsData.inOrder_of_part (h : v.IsData) (hpart : Part (.map entries) v) :
    InOrder entries := by
  induction h with
  | array _ _ ih =>
      cases hpart with
      | item hv hpart => exact ih _ hv hpart
  | @map pairs _ hdistinct hkeys _ ihkeys ihvalues =>
      have hperm := sortEntries_perm_of_nodup hdistinct fun e he => (hkeys e he).readBack
      unfold ofPairs at hpart
      cases hpart with
      | whole => exact inOrder_sortEntries pairs
      | key he hpart => exact ihkeys _ (hperm.mem_iff.mp he) hpart
      | value he hpart => exact ihvalues _ (hperm.mem_iff.mp he) hpart
  | _ => cases hpart

theorem bytesOfItems_eq_flatMap (items : List Value) :
    bytesOfItems items = items.flatMap bytesOf := by
  induction items with
  | nil => rfl
  | cons v items ih => rw [bytesOfItems, ih, List.flatMap_cons]

/-- The bytes of a key with those of its value behind them. -/
def bytesOfEntry (e : Value × Value) : List UInt8 := e.1.bytesOf ++ e.2.bytesOf

theorem bytesOfEntries_eq_flatMap (entries : List (Value × Value)) :
    bytesOfEntries entries = entries.flatMap bytesOfEntry := by
  induction entries with
  | nil => rfl
  | cons e entries ih => rw [bytesOfEntries, ih, List.flatMap_cons, bytesOfEntry]

theorem infix_flatMap {α β : Type} {f : α → List β} {a : α} {as : List α} (h : a ∈ as) :
    f a <:+: as.flatMap f := by
  rw [List.flatMap_def]
  exact List.infix_of_mem_flatten (List.mem_map_of_mem h)

/-- The bytes of a part stand among the bytes of the whole. -/
theorem Part.bytesOf_infix (h : Part u v) : u.bytesOf <:+: v.bytesOf := by
  induction h with
  | whole => exact List.infix_rfl
  | item hv _ ih =>
      rw [bytesOf, bytesOfItems_eq_flatMap]
      exact List.infix_append_of_infix_right (ih.trans (infix_flatMap hv))
  | @key entries e he _ ih =>
      rw [bytesOf, bytesOfEntries_eq_flatMap]
      have hentry : u.bytesOf <:+: bytesOfEntry e := List.infix_append_of_infix_left ih
      exact List.infix_append_of_infix_right (hentry.trans (infix_flatMap he))
  | @value entries e he _ ih =>
      rw [bytesOf, bytesOfEntries_eq_flatMap]
      have hentry : u.bytesOf <:+: bytesOfEntry e := List.infix_append_of_infix_right ih
      exact List.infix_append_of_infix_right (hentry.trans (infix_flatMap he))

/-! ## Documents of two values -/

/-- **The encoding is canonical and prefix-free.** Any two values have documents. If one document is
a prefix of the other, the values are the same data; if they are the same data, the documents are
the same bytes, so nothing shows of the order in which entries were inserted. Each map is written as
a head, which counts its entries, and the entries one behind the other, whose keys are all different
and stand in strictly increasing order. -/
theorem encode_canonical (hv : v.Sound) (hw : w.Sound) : ∃ bytes bytes',
    v.assemble.encode = .ok bytes ∧ w.assemble.encode = .ok bytes' ∧
    (bytes <+: bytes' → v.SameData w) ∧ (v.SameData w → bytes = bytes') ∧
    v.SameData v.assemble ∧ ∀ entries, Part (.map entries) v.assemble →
      head 5 entries.length ++ entries.flatMap bytesOfEntry <:+: bytes ∧
      (entries.map Prod.fst).Nodup ∧ entries.Pairwise fun e f => Precedes e.1 f.1 := by
  obtain ⟨hdata, hsame⟩ := hv.assemble
  obtain ⟨hdata', hsame'⟩ := hw.assemble
  refine ⟨v.assemble.document, w.assemble.document, ?_, ?_, ?_, ?_, hsame, ?_⟩
  · rw [encode, if_pos hdata.encodable]
  · rw [encode, if_pos hdata'.encodable]
  · intro hprefix
    have hbytes := (List.prefix_append_right_inj selfDescribed).mp hprefix
    have heq := eq_of_bytesOf_prefix hdata.readBack hdata'.readBack hbytes
    exact hsame.trans (heq ▸ hsame'.symm)
  · intro h
    rw [(h.assemble_eq hv).2]
  · intro entries hpart
    have hbytes : bytesOf (.map entries) <:+: v.assemble.document :=
      List.infix_append_of_infix_right hpart.bytesOf_infix
    rw [bytesOf, bytesOfEntries_eq_flatMap] at hbytes
    have horder := (hdata.inOrder_of_part hpart).imp precedes_of_order
    exact ⟨hbytes, List.pairwise_map.mpr (horder.imp Precedes.ne), horder⟩

/-! ## A map that is keyed by a map -/

/-- What is the same data begins with the same major type. -/
theorem SameData.major_eq (h : v.SameData w) : v.major = w.major := by
  induction h with
  | trans _ _ ih ih' => exact ih.trans ih'
  | _ => rfl

def keyedByMap : Value := .map [
  (.int 7, .null),
  (.map [(.int 1, .bool true), (.text "a", .null)], .float .nan)]

/-- The entries of `keyedByMap` and those of its key, last one first. -/
def keyedByMapReversed : Value := .map [
  (.map [(.text "a", .null), (.int 1, .bool true)], .float .nan),
  (.int 7, .null)]

theorem sound_keyedByMap : keyedByMap.Sound := by
  have hkey : Sound (.map [(.int 1, .bool true), (.text "a", .null)]) := by
    refine .map (by decide) ?_ ?_ ?_
    · simpa using fun h => by cases h.major_eq
    · simpa using ⟨.int (by decide), .text (by decide)⟩
    · simpa using ⟨.bool true, .null⟩
  refine .map (by decide) ?_ ?_ ?_
  · simpa using fun h => by cases h.major_eq
  · simpa using ⟨.int (by decide), hkey⟩
  · simpa using ⟨.null, .float _⟩

theorem sameData_keyedByMapReversed : keyedByMap.SameData keyedByMapReversed :=
  .trans (.entry [(.int 7, .null)] [] (.reorder (.swap _ _ [])) (.refl _)) (.reorder (.swap _ _ []))

theorem encode_canonical_keyedByMap : ∃ bytes, keyedByMap.assemble.encode = .ok bytes ∧
    keyedByMapReversed.assemble.encode = .ok bytes := by
  have hreversed := (sameData_keyedByMapReversed.assemble_eq sound_keyedByMap).1
  obtain ⟨bytes, bytes', hencode, hencode', -, heq, -⟩ :=
    encode_canonical sound_keyedByMap hreversed
  rw [← heq sameData_keyedByMapReversed] at hencode'
  exact ⟨bytes, hencode, hencode'⟩

end Value
end TraceAtlas.Cbor
