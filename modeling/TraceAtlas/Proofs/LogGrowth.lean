import TraceAtlas.Proofs.RecordCodec
import TraceAtlas.Table.Log

/-!
# Table files grow by whole frames

A file that ends behind a whole frame is the frames of its payloads one after the other, and
nothing else (`split_flatMap_frame`, `eq_flatMap_frame`). So a frame that is added at the end is
read behind all others, and a row that is added this way is read behind all other rows
(`rows_append_row`).
-/

namespace TraceAtlas.Log

open Cbor

/-! ## Frames -/

theorem length_littleEndian (k n : Nat) : (littleEndian k n).length = k := by
  induction k generalizing n with
  | zero => rfl
  | succ k ih => rw [littleEndian, List.length_cons, ih]

theorem ofLittleEndian_littleEndian {k n : Nat} (h : n < 256 ^ k) :
    ofLittleEndian (littleEndian k n) = n := by
  induction k generalizing n with
  | zero =>
      have hn : n = 0 := by simpa using h
      rw [hn]
      rfl
  | succ k ih =>
      have hk : n / 256 < 256 ^ k := by
        rw [Nat.pow_succ] at h
        exact Nat.div_lt_of_lt_mul (by omega)
      rw [littleEndian, ofLittleEndian, ih hk, UInt8.toNat_ofNat']
      omega

theorem littleEndian_ofLittleEndian (bs : List UInt8) :
    littleEndian bs.length (ofLittleEndian bs) = bs := by
  induction bs with
  | nil => rfl
  | cons b bs ih =>
      have hb : b.toNat < 256 := b.toNat_lt
      have hlow : UInt8.ofNat (b.toNat + 256 * ofLittleEndian bs) = b := by
        apply UInt8.toNat_inj.mp
        rw [UInt8.toNat_ofNat']
        omega
      have hhigh : (b.toNat + 256 * ofLittleEndian bs) / 256 = ofLittleEndian bs := by omega
      rw [List.length_cons, littleEndian, ofLittleEndian, hlow, hhigh, ih]

theorem ofLittleEndian_lt (bs : List UInt8) : ofLittleEndian bs < 256 ^ bs.length := by
  induction bs with
  | nil => simp [ofLittleEndian]
  | cons b bs ih =>
      have hb : b.toNat < 256 := b.toNat_lt
      rw [ofLittleEndian, List.length_cons, Nat.pow_succ]
      omega

theorem length_frame (payload : List UInt8) : (frame payload).length = 4 + payload.length := by
  rw [frame, List.length_append, length_littleEndian]

/-! ## Files of whole frames -/

theorem split_frame_append {payload : List UInt8} (h : payload.length < UInt32.size)
    (rest : List UInt8) :
    split (frame payload ++ rest) = (payload :: (split rest).1, (split rest).2) := by
  have hlength : (littleEndian 4 payload.length).length = 4 := length_littleEndian 4 _
  have htake : (frame payload ++ rest).take 4 = littleEndian 4 payload.length := by
    rw [frame, List.append_assoc, List.take_left' hlength]
  have hdrop : (frame payload ++ rest).drop 4 = payload ++ rest := by
    rw [frame, List.append_assoc, List.drop_left' hlength]
  have hsize : (frame payload ++ rest).length = 4 + payload.length + rest.length := by
    rw [List.length_append, length_frame]
  rw [split, if_neg (by omega), if_neg (by omega), htake, ofLittleEndian_littleEndian (by omega)]
  dsimp only
  rw [if_neg (by omega), hdrop, List.take_left' rfl, ← List.drop_drop, hdrop, List.drop_left' rfl]

theorem split_flatMap_frame {payloads : List (List UInt8)}
    (h : ∀ payload ∈ payloads, payload.length < UInt32.size) :
    split (payloads.flatMap frame) = (payloads, .complete) := by
  induction payloads with
  | nil => rw [List.flatMap_nil, split, List.length_nil, if_pos rfl]
  | cons payload payloads ih =>
      obtain ⟨hpayload, hpayloads⟩ := List.forall_mem_cons.mp h
      rw [List.flatMap_cons, split_frame_append hpayload, ih hpayloads]

/-- Files that end behind a whole frame consist of frames. -/
theorem eq_flatMap_frame {content : List UInt8} (h : (split content).2 = .complete) :
    content = (split content).1.flatMap frame ∧
      ∀ payload ∈ (split content).1, payload.length < UInt32.size := by
  induction content using split.induct with
  | case1 bs hempty =>
      rw [split, if_pos hempty]
      exact ⟨List.length_eq_zero_iff.mp hempty, by simp⟩
  | case2 bs hsome hshort =>
      rw [split, if_neg hsome, if_pos hshort] at h
      cases h
  | case3 bs hsome hlong n hshort =>
      rw [split, if_neg hsome, if_neg hlong] at h
      dsimp only at h
      rw [if_pos hshort] at h
      cases h
  | case4 bs hsome hlong n hwhole ih =>
      have hlength : (bs.take 4).length = 4 := by
        rw [List.length_take]
        omega
      have hpayload : ((bs.drop 4).take n).length = n := by
        rw [List.length_take, List.length_drop]
        omega
      have hn : n < UInt32.size := by
        have hlt := ofLittleEndian_lt (bs.take 4)
        rw [hlength] at hlt
        exact hlt
      -- the frame that is cut off is what stood in front
      have hframe : frame ((bs.drop 4).take n) = bs.take (4 + n) := by
        have hhead := littleEndian_ofLittleEndian (bs.take 4)
        rw [hlength] at hhead
        rw [frame, hpayload, hhead, List.take_add]
      have hsplit : split bs = ((bs.drop 4).take n :: (split (bs.drop (4 + n))).1,
          (split (bs.drop (4 + n))).2) := by
        rw [split, if_neg hsome, if_neg hlong]
        dsimp only
        rw [if_neg hwhole]
      rw [hsplit] at h ⊢
      obtain ⟨hrest, hpayloads⟩ := ih h
      refine ⟨?_, List.forall_mem_cons.mpr ⟨by rw [hpayload]; exact hn, hpayloads⟩⟩
      rw [List.flatMap_cons, hframe, ← hrest, List.take_append_drop]

theorem split_append_frame {content payload : List UInt8} (h : (split content).2 = .complete)
    (hpayload : payload.length < UInt32.size) :
    split (content ++ frame payload) = ((split content).1 ++ [payload], .complete) := by
  obtain ⟨hcontent, hpayloads⟩ := eq_flatMap_frame h
  have hall : ∀ p ∈ (split content).1 ++ [payload], p.length < UInt32.size := by
    intro p hp
    rcases List.mem_append.mp hp with hp | hp
    · exact hpayloads p hp
    · rw [List.mem_singleton.mp hp]
      exact hpayload
  have hframes : content ++ frame payload = ((split content).1 ++ [payload]).flatMap frame := by
    rw [List.flatMap_append, ← hcontent, List.flatMap_singleton]
  rw [hframes, split_flatMap_frame hall]

/-! ## Rows at the end -/

variable {table : String} {key : RowKey} {entry : Entry}

/-- A row may stand last in a table that has a header. -/
theorem rowsOf_append_row {payloads : List (List UInt8)} {payload : List UInt8} {headed : Bool}
    {rs : List Row} (hdecode : Record.decode payload = .ok (.row key entry))
    (hheader : headed = true ∨ payloads ≠ []) (h : rowsOf table headed payloads = .ok rs) :
    rowsOf table headed (payloads ++ [payload]) = .ok (rs ++ [(key, entry)]) := by
  induction payloads generalizing headed rs with
  | nil =>
      obtain rfl : headed = true := hheader.resolve_right (· rfl)
      cases h
      simp [rowsOf, hdecode, Except.map]
  | cons first payloads ih =>
      rw [List.cons_append]
      unfold rowsOf at h ⊢
      split at h
      · cases h
      · split at h
        · cases h
        · next hheaded =>
            split at h
            · next hversion =>
                rw [if_neg hheaded, if_pos hversion]
                exact ih (.inl rfl) h
            · cases h
      · split at h
        · next hheaded =>
            rw [if_pos hheaded]
            -- the rows behind the first one
            cases hbehind : rowsOf table headed payloads with
            | error e =>
                rw [hbehind] at h
                cases h
            | ok behind =>
                rw [hbehind] at h
                cases h
                rw [ih (.inl hheaded) hbehind]
                rfl
        · cases h

theorem frameOf_eq_ok {r : Record} {bytes : List UInt8} (h : frameOf r = .ok bytes) :
    ∃ payload, bytes = frame payload ∧ payload.length < UInt32.size ∧ r.encode = .ok payload := by
  unfold frameOf at h
  split at h
  · cases h
  · next payload hencode =>
      split at h
      · next hlength => exact ⟨payload, (Except.ok.inj h).symm, hlength, hencode⟩
      · cases h

/-- The frame of a row holds a payload that is read as the row. -/
theorem frameOf_row {bytes : List UInt8} (h : frameOf (.row key entry) = .ok bytes) :
    ∃ payload, bytes = frame payload ∧ payload.length < UInt32.size ∧
      Record.decode payload = .ok (.row key entry) := by
  obtain ⟨payload, rfl, hlength, hencode⟩ := frameOf_eq_ok h
  refine ⟨payload, rfl, hlength, ?_⟩
  obtain ⟨hfits, rfl⟩ := Record.encode_eq_ok hencode
  have hname := Record.length_name_le key entry
  have hsizes : UInt32.size < UInt64.size := by decide
  exact Record.decode_document_row (Record.key_lt hfits) (by omega)

/-- **A row that is added at the end of a table file is read behind all other rows.** -/
theorem rows_append_row {content bytes : List UInt8} {rs : List Row} (hsome : content ≠ [])
    (hrows : rows table content = .ok rs) (hframe : frameOf (.row key entry) = .ok bytes) :
    rows table (content ++ bytes) = .ok (rs ++ [(key, entry)]) := by
  obtain ⟨payload, rfl, hpayload, hdecode⟩ := frameOf_row hframe
  unfold rows at hrows
  split at hrows
  · cases hrows
  · next rs' hrowsOf =>
      have hcomplete : (split content).2 = .complete := by
        cases hend : (split content).2 with
        | complete => rfl
        | shortLength => rw [hend] at hrows; cases hrows
        | shortPayload => rw [hend] at hrows; cases hrows
      rw [hcomplete] at hrows
      cases hrows
      -- a file that is not empty has a first frame, and that is the header
      have hheader : (split content).1 ≠ [] := by
        intro hnone
        obtain ⟨hcontent, -⟩ := eq_flatMap_frame hcomplete
        rw [hnone] at hcontent
        exact hsome hcontent
      unfold rows
      rw [split_append_frame hcomplete hpayload, rowsOf_append_row hdecode (.inr hheader) hrowsOf]
      rfl

/-! ## Records that fit -/

theorem frameOf_of_encode {r : Record} {payload : List UInt8} (hencode : r.encode = .ok payload)
    (hlength : payload.length < UInt32.size) : frameOf r = .ok (frame payload) := by
  unfold frameOf
  rw [hencode]
  exact if_pos hlength

theorem rows_frame_header {payload : List UInt8} (hpayload : payload.length < UInt32.size)
    (hdecode : Record.decode payload = .ok (.header schemaVersion)) :
    rows table (frame payload) = .ok [] := by
  have hsplit := split_frame_append hpayload []
  have hend : split [] = ([], .complete) := by
    rw [split, List.length_nil, if_pos rfl]
  rw [List.append_nil, hend] at hsplit
  unfold rows
  rw [hsplit]
  simp [rowsOf, hdecode, Ending.close]

theorem encode_header : ∃ payload, (Record.header schemaVersion).encode = .ok payload ∧
    payload.length < UInt32.size ∧ Record.decode payload = .ok (.header schemaVersion) :=
  ⟨(Record.header schemaVersion).toValue.document, by decide, by decide, by decide⟩

/-- A table can be begun, and then has no rows. -/
theorem frameOf_header : ∃ bytes, frameOf (.header schemaVersion) = .ok bytes ∧
    ∀ table, rows table bytes = .ok [] := by
  obtain ⟨payload, hencode, hlength, hdecode⟩ := encode_header
  refine ⟨frame payload, frameOf_of_encode hencode hlength, ?_⟩
  exact fun _ => rows_frame_header hlength hdecode

/-- A table file can hold the row: the key is a word of eight bytes, and the record is below 4 GiB.
-/
structure Fits (row : Row) : Prop where
  key_lt : row.1 < UInt64.size
  length_lt : (Record.row row.1 row.2).toValue.document.length < UInt32.size

theorem frameOf_of_fits (h : Fits (key, entry)) : ∃ bytes, frameOf (.row key entry) = .ok bytes :=
  ⟨_, frameOf_of_encode (Record.encode_row h.key_lt) h.length_lt⟩

/-! ## The next key -/

theorem lt_foldl_max (n : Nat) (rs : List Row) :
    n ≤ rs.foldl (fun n row => max n (row.1 + 1)) n ∧
      ∀ row ∈ rs, row.1 < rs.foldl (fun n row => max n (row.1 + 1)) n := by
  induction rs generalizing n with
  | nil => simp
  | cons row rs ih =>
      obtain ⟨hstart, hrows⟩ := ih (max n (row.1 + 1))
      refine ⟨?_, List.forall_mem_cons.mpr ⟨?_, hrows⟩⟩
      · exact Nat.le_trans (Nat.le_max_left n (row.1 + 1)) hstart
      · exact Nat.le_trans (Nat.le_max_right n (row.1 + 1)) hstart

/-- Keys that were handed out one after the other are followed by their number. -/
theorem nextKey_of_range {rs : List Row} {n : Nat} (h : rs.map Prod.fst = List.range n) :
    nextKey rs = n := by
  have hkeys : nextKey rs = (List.range n).foldl (fun m k => max m (k + 1)) 0 := by
    rw [← h, List.foldl_map]
    rfl
  rw [hkeys]
  clear h hkeys
  induction n with
  | zero => rfl
  | succ n ih => simp [List.range_succ, ih]

theorem nextKey_not_mem (rs : List Row) : nextKey rs ∉ rs.map Prod.fst := by
  intro hmem
  obtain ⟨row, hrow, hkey⟩ := List.mem_map.mp hmem
  have hlt := (lt_foldl_max 0 rs).2 row hrow
  rw [hkey] at hlt
  exact Nat.lt_irrefl _ hlt

end TraceAtlas.Log
