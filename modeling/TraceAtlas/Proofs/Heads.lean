import Mathlib.Algebra.Group.Nat.Defs
import TraceAtlas.Cbor.Head
import TraceAtlas.Proofs.FloatFormats

/-!
# Heads are read as they are written

`head` writes the shortest head of an argument, and `readHead` reads it back with whatever follows
left over: `readHead_unsigned`, `readHead_negative`, `readHead_bytes`, `readHead_text`,
`readHead_array`, `readHead_map` and `readHead_float`, one for each kind of head. All but the last
rest on `head_eq`, which names the first byte and says what is read off the others.
-/

namespace TraceAtlas.Cbor

/-! ## Numbers of a fixed number of bytes -/

@[simp] theorem length_bigEndian (k n : Nat) : (bigEndian k n).length = k := by
  induction k generalizing n with
  | zero => rfl
  | succ k ih => simp [bigEndian, ih]

theorem ofBigEndian_concat (bs : List UInt8) (b : UInt8) :
    ofBigEndian (bs ++ [b]) = ofBigEndian bs * 256 + b.toNat := by
  simp [ofBigEndian, List.foldl_append]

theorem ofBigEndian_bigEndian {k n : Nat} (h : n < 256 ^ k) : ofBigEndian (bigEndian k n) = n := by
  induction k generalizing n with
  | zero =>
      have hn : n = 0 := by simpa using h
      rw [hn]
      rfl
  | succ k ih =>
      have hk : n / 256 < 256 ^ k := by
        rw [Nat.pow_succ] at h
        exact Nat.div_lt_of_lt_mul (by omega)
      -- the last byte holds the remainder, those before it the quotient
      rw [bigEndian, ofBigEndian_concat, ih hk, UInt8.toNat_ofNat']
      omega

theorem take_append (xs rest : List UInt8) : take xs.length (xs ++ rest) = .ok (xs, rest) := by
  simp [take]

theorem readNumber_bigEndian {k n : Nat} (h : n < 256 ^ k) (rest : List UInt8) :
    readNumber k (bigEndian k n ++ rest) = .ok (n, rest) := by
  have htake := take_append (bigEndian k n) rest
  rw [length_bigEndian] at htake
  simp only [readNumber, htake, bind, Except.bind, ofBigEndian_bigEndian h]

/-! ## The argument of a head -/

def Width.of (n : Nat) : Width :=
  if n < UInt8.size then .one
  else if n < UInt16.size then .two
  else if n < UInt32.size then .four
  else .eight

/-- The five bits that announce an argument behind the first byte, with its bytes and its width. -/
def announced : List (Nat × Nat × Width) :=
  [(24, 1, .one), (25, 2, .two), (26, 4, .four), (27, 8, .eight)]

theorem readArgument_announced {info k : Nat} {width : Width} (h : (info, k, width) ∈ announced)
    (bs : List UInt8) :
    readArgument info bs = (readNumber k bs).map fun r => ((width, r.1), r.2) := by
  simp only [announced, List.mem_cons, Prod.mk.injEq, List.not_mem_nil, or_false] at h
  rcases h with ⟨rfl, rfl, rfl⟩ | ⟨rfl, rfl, rfl⟩ | ⟨rfl, rfl, rfl⟩ | ⟨rfl, rfl, rfl⟩
  · show (readNumber 1 bs >>= _) = _
    cases readNumber 1 bs <;> rfl
  · show (readNumber 2 bs >>= _) = _
    cases readNumber 2 bs <;> rfl
  · show (readNumber 4 bs >>= _) = _
    cases readNumber 4 bs <;> rfl
  · show (readNumber 8 bs >>= _) = _
    cases readNumber 8 bs <;> rfl

/-- A small argument stands in the first byte of its head, any other in the bytes behind it. -/
theorem head_cases (major : Nat) {n : Nat} (h : n < UInt64.size) :
    (n < 24 ∧ Width.of n = .one ∧ head major n = [UInt8.ofNat (major * 32 + n)]) ∨
      ∃ info k, (info, k, Width.of n) ∈ announced ∧ n < 256 ^ k ∧
        head major n = UInt8.ofNat (major * 32 + info) :: bigEndian k n := by
  have hsize : UInt64.size = 256 ^ 8 := by decide
  by_cases hsmall : n < 24
  · exact .inl ⟨hsmall, if_pos (Nat.lt_trans hsmall (by decide)), if_pos hsmall⟩
  · refine .inr ?_
    unfold head Width.of announced
    rw [if_neg hsmall]
    split
    · next hone => exact ⟨24, 1, by simp, hone, rfl⟩
    · split
      · next htwo => exact ⟨25, 2, by simp, htwo, rfl⟩
      · split
        · next hfour => exact ⟨26, 4, by simp, hfour, rfl⟩
        · exact ⟨27, 8, by simp, hsize ▸ h, rfl⟩

/-- The first byte of a head says how the argument is to be read off the others. -/
theorem head_eq (major : Nat) {n : Nat} (h : n < UInt64.size) :
    ∃ info tail, head major n = UInt8.ofNat (major * 32 + info) :: tail ∧ info < 28 ∧
      ∀ rest, readArgument info (tail ++ rest) = .ok ((Width.of n, n), rest) := by
  rcases head_cases major h with ⟨hsmall, hwidth, hhead⟩ | ⟨info, k, hinfo, hbound, hhead⟩
  · refine ⟨n, [], hhead, by omega, ?_⟩
    intro rest
    rw [hwidth]
    simp [readArgument, hsmall]
  · refine ⟨info, bigEndian k n, hhead, ?_, ?_⟩
    · exact (by decide : ∀ a ∈ announced, a.1 < 28) _ hinfo
    · intro rest
      rw [readArgument_announced hinfo, readNumber_bigEndian hbound]
      rfl

theorem toNat_firstByte (major info : Nat) (hmajor : major < 8) (hinfo : info < 32) :
    (UInt8.ofNat (major * 32 + info)).toNat / 32 = major ∧
      (UInt8.ofNat (major * 32 + info)).toNat % 32 = info := by
  rw [UInt8.toNat_ofNat']
  omega

/-! ## Whole heads -/

theorem readHead_unsigned {n : Nat} (h : n < UInt64.size) (rest : List UInt8) :
    readHead (head 0 n ++ rest) = .ok (.unsigned (Width.of n) n, rest) := by
  obtain ⟨info, tail, hhead, hinfo, hread⟩ := head_eq 0 h
  obtain ⟨hmajor, hlow⟩ := toNat_firstByte 0 info (by omega) (by omega)
  rw [hhead, List.cons_append]
  simp only [readHead, hmajor, hlow, hread, bind, Except.bind]

theorem readHead_negative {n : Nat} (h : n < UInt64.size) (rest : List UInt8) :
    readHead (head 1 n ++ rest) = .ok (.negative n, rest) := by
  obtain ⟨info, tail, hhead, hinfo, hread⟩ := head_eq 1 h
  obtain ⟨hmajor, hlow⟩ := toNat_firstByte 1 info (by omega) (by omega)
  rw [hhead, List.cons_append]
  simp only [readHead, hmajor, hlow, hread, bind, Except.bind]

theorem readHead_bytes {content : List UInt8} (h : content.length < UInt64.size)
    (rest : List UInt8) :
    readHead (head 2 content.length ++ content ++ rest) = .ok (.bytes content, rest) := by
  obtain ⟨info, tail, hhead, hinfo, hread⟩ := head_eq 2 h
  obtain ⟨hmajor, hlow⟩ := toNat_firstByte 2 info (by omega) (by omega)
  have hdefinite : info ≠ indefinite := by
    unfold indefinite
    omega
  rw [hhead, List.cons_append, List.cons_append, List.append_assoc]
  simp only [readHead, hmajor, hlow, readBytes, hdefinite, if_false, hread, take_append, bind,
    Except.bind]

theorem readHead_text {s : String} (h : (Utf8.encode s).length < UInt64.size) (rest : List UInt8) :
    readHead (head 3 (Utf8.encode s).length ++ Utf8.encode s ++ rest) = .ok (.text s, rest) := by
  obtain ⟨info, tail, hhead, hinfo, hread⟩ := head_eq 3 h
  obtain ⟨hmajor, hlow⟩ := toNat_firstByte 3 info (by omega) (by omega)
  have hdefinite : info ≠ indefinite := by
    unfold indefinite
    omega
  rw [hhead, List.cons_append, List.cons_append, List.append_assoc]
  simp only [readHead, hmajor, hlow, readTextBytes, hdefinite, if_false, hread, bind, Except.bind]
  simp

theorem readHead_array {n : Nat} (h : n < UInt64.size) (rest : List UInt8) :
    readHead (head 4 n ++ rest) = .ok (.array (some n), rest) := by
  obtain ⟨info, tail, hhead, hinfo, hread⟩ := head_eq 4 h
  obtain ⟨hmajor, hlow⟩ := toNat_firstByte 4 info (by omega) (by omega)
  have hdefinite : info ≠ indefinite := by
    unfold indefinite
    omega
  rw [hhead, List.cons_append]
  simp only [readHead, hmajor, hlow, readLength, hdefinite, if_false, hread, bind, Except.bind]

theorem readHead_map {n : Nat} (h : n < UInt64.size) (rest : List UInt8) :
    readHead (head 5 n ++ rest) = .ok (.map (some n), rest) := by
  obtain ⟨info, tail, hhead, hinfo, hread⟩ := head_eq 5 h
  obtain ⟨hmajor, hlow⟩ := toNat_firstByte 5 info (by omega) (by omega)
  have hdefinite : info ≠ indefinite := by
    unfold indefinite
    omega
  rw [hhead, List.cons_append]
  simp only [readHead, hmajor, hlow, readLength, hdefinite, if_false, hread, bind, Except.bind]

theorem readHead_float (x : Binary64) (rest : List UInt8) :
    readHead (floatBytes x ++ rest) = .ok (.float x, rest) := by
  unfold floatBytes
  split
  · next n hhalf =>
      obtain ⟨hlt, hwiden⟩ := Format.widen_of_narrow? Format.narrower_half hhalf
      have hread := readNumber_bigEndian (show n < 256 ^ 2 from hlt) rest
      rw [List.cons_append]
      simp [readHead, readSimple, hread, hwiden, bind, Except.bind]
  · split
    · next n hsingle =>
        obtain ⟨hlt, hwiden⟩ := Format.widen_of_narrow? Format.narrower_single hsingle
        have hread := readNumber_bigEndian (show n < 256 ^ 4 from hlt) rest
        rw [List.cons_append]
        simp [readHead, readSimple, hread, hwiden, bind, Except.bind]
    · have hread := readNumber_bigEndian (show x.toNat < 256 ^ 8 from x.toNat_lt) rest
      rw [List.cons_append]
      simp [readHead, readSimple, hread, x.ofBits_toNat, bind, Except.bind]

theorem readHead_selfDescribed (rest : List UInt8) :
    readHead (Value.selfDescribed ++ rest) = .ok (.tag, rest) := by
  simp [Value.selfDescribed, readHead, readArgument, readNumber, take, bind, Except.bind]

end TraceAtlas.Cbor
