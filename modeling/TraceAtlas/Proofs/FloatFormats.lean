import Mathlib.Algebra.Order.Ring.Nat
import Mathlib.Data.Nat.Log
import TraceAtlas.Cbor.Binary64

/-!
# Narrowing floating-point numbers

A number is written in the shortest format that has it exactly, which `Format.narrow?` decides, and
`Format.widen` reads the pattern back. `Format.widen_of_narrow?` says that this gives the number
again, for every format that is narrower than double precision in fraction and in exponent range.

A pattern is taken apart into sign, exponent and fraction by division (`pack_fields`) and put
together by multiplication (`sign_pack`, `exponent_pack`, `fraction_pack`). What is left is
arithmetic of the fields, in one lemma for each kind of number: those that are not finite, normal
numbers, zero, and subnormal numbers of the narrower format, in which the implicit bit of the number
has become part of the fraction.
-/

namespace TraceAtlas.Cbor
namespace Format

variable {f : Format} {s e m n : Nat}

/-! ## Fields of a pattern -/

theorem pack_eq (f : Format) (s e m : Nat) :
    f.pack s e m = (s * 2 ^ f.exponentBits + e) * 2 ^ f.fractionBits + m := by
  simp only [pack, Nat.shiftLeft_eq]

theorem exponent_eq (f : Format) (n : Nat) :
    f.exponent n = n / 2 ^ f.fractionBits % 2 ^ f.exponentBits := by
  simp only [exponent, Nat.shiftRight_eq_div_pow, Nat.shiftLeft_eq, Nat.one_mul]

theorem fraction_eq (f : Format) (n : Nat) : f.fraction n = n % 2 ^ f.fractionBits := by
  simp only [fraction, Nat.shiftLeft_eq, Nat.one_mul]

theorem sign_eq (f : Format) (n : Nat) :
    f.sign n = n / 2 ^ f.fractionBits / 2 ^ f.exponentBits % 2 := by
  rw [sign, Nat.shiftRight_eq_div_pow, Nat.pow_add, Nat.mul_comm, Nat.div_div_eq_div_mul]

theorem topExponent_eq (f : Format) : f.topExponent = 2 ^ f.exponentBits - 1 := by
  rw [topExponent, Nat.shiftLeft_eq, Nat.one_mul]

theorem pack_div (hm : m < 2 ^ f.fractionBits) :
    f.pack s e m / 2 ^ f.fractionBits = s * 2 ^ f.exponentBits + e := by
  rw [pack_eq, Nat.mul_comm, Nat.mul_add_div (Nat.two_pow_pos _), Nat.div_eq_of_lt hm, Nat.add_zero]

theorem sign_pack (hs : s < 2) (he : e < 2 ^ f.exponentBits) (hm : m < 2 ^ f.fractionBits) :
    f.sign (f.pack s e m) = s := by
  rw [sign_eq, pack_div hm, Nat.mul_comm, Nat.mul_add_div (Nat.two_pow_pos _),
    Nat.div_eq_of_lt he, Nat.add_zero, Nat.mod_eq_of_lt hs]

theorem exponent_pack (he : e < 2 ^ f.exponentBits) (hm : m < 2 ^ f.fractionBits) :
    f.exponent (f.pack s e m) = e := by
  rw [exponent_eq, pack_div hm, Nat.mul_add_mod_of_lt he]

theorem fraction_pack (hm : m < 2 ^ f.fractionBits) : f.fraction (f.pack s e m) = m := by
  rw [fraction_eq, pack_eq, Nat.mul_add_mod_of_lt hm]

/-- How many bits a pattern of the format has. -/
def bits (f : Format) : Nat := 1 + f.exponentBits + f.fractionBits

theorem pack_lt (hs : s < 2) (he : e < 2 ^ f.exponentBits) (hm : m < 2 ^ f.fractionBits) :
    f.pack s e m < 2 ^ f.bits := by
  have hhigh : s * 2 ^ f.exponentBits + e < 2 ^ (1 + f.exponentBits) := by
    rw [Nat.pow_add]
    have hs : s ≤ 1 := Nat.le_of_lt_succ hs
    have := Nat.mul_le_mul_right (2 ^ f.exponentBits) hs
    omega
  rw [pack_eq, bits, Nat.pow_add]
  calc (s * 2 ^ f.exponentBits + e) * 2 ^ f.fractionBits + m
      < (s * 2 ^ f.exponentBits + e + 1) * 2 ^ f.fractionBits := by
        rw [Nat.add_mul _ 1]
        omega
    _ ≤ 2 ^ (1 + f.exponentBits) * 2 ^ f.fractionBits := Nat.mul_le_mul_right _ hhigh

theorem pack_fields (hn : n < 2 ^ f.bits) :
    f.pack (f.sign n) (f.exponent n) (f.fraction n) = n := by
  have hsign : n / 2 ^ f.fractionBits / 2 ^ f.exponentBits < 2 := by
    rw [Nat.div_div_eq_div_mul, ← Nat.pow_add]
    apply Nat.div_lt_of_lt_mul
    rw [bits, Nat.add_assoc, Nat.pow_add, Nat.add_comm f.exponentBits, Nat.mul_comm] at hn
    exact hn
  rw [pack_eq, sign_eq, exponent_eq, fraction_eq, Nat.mod_eq_of_lt hsign, Nat.div_add_mod',
    Nat.div_add_mod']

end Format

namespace Binary64

theorem ofBits_toNat (x : Binary64) : ofBits (UInt64.ofNat x.toNat) = x := by
  rw [toNat, UInt64.ofNat_toNat, ofBits_bits]

theorem toNat_lt (x : Binary64) : x.toNat < 2 ^ Format.double.bits := x.bits.toNat_lt

/-- The fraction of what is no finite number is a power of two, if it is not zero. -/
theorem fraction_of_topExponent {x : Binary64}
    (h : Format.double.exponent x.toNat = Format.double.topExponent) :
    Format.double.fraction x.toNat = 0 ∨ Format.double.fraction x.toNat = 2 ^ 51 := by
  by_cases hzero : Format.double.fraction x.toNat = 0
  · exact .inl hzero
  · have hnan : Format.double.isNaN x.bits.toNat = true := by
      simpa [Format.isNaN, h] using ⟨h, hzero⟩
    refine .inr ?_
    rw [toNat, x.bits_of_isNaN hnan]
    decide

end Binary64

namespace Format

/-- The fields of the format are narrower than those of a double-precision number, and so is the
range of its exponents. -/
structure Narrower (f : Format) : Prop where
  fraction_pos : 0 < f.fractionBits
  fraction : f.fractionBits ≤ 51
  exponent : 0 < f.topExponent
  bias : f.bias + f.fractionBits ≤ double.bias

theorem narrower_half : half.Narrower := ⟨by decide, by decide, by decide, by decide⟩

theorem narrower_single : single.Narrower := ⟨by decide, by decide, by decide, by decide⟩

variable {f : Format} {s e m n : Nat}

/-! ## What a narrow pattern stands for -/

/-- `n` is a pattern of the format, and the number it stands for has these fields. -/
structure Stands (f : Format) (n s e m : Nat) : Prop where
  lt : n < 2 ^ f.bits
  widen : f.widen n = .ofBits (.ofNat (double.pack s e m))

theorem topExponent_lt (f : Format) : f.topExponent < 2 ^ f.exponentBits := by
  have := Nat.two_pow_pos f.exponentBits
  rw [topExponent_eq]
  omega

theorem stands_top (hs : s < 2) (hm : m < 2 ^ f.fractionBits) :
    f.Stands (f.pack s f.topExponent m) s double.topExponent (m * 2 ^ (52 - f.fractionBits)) := by
  have he := f.topExponent_lt
  refine ⟨pack_lt hs he hm, ?_⟩
  simp only [Format.widen, sign_pack hs he hm, exponent_pack he hm, fraction_pack hm, if_true,
    Nat.shiftLeft_eq]

theorem stands_normal (hs : s < 2) (he : e < f.topExponent) (hzero : e ≠ 0)
    (hm : m < 2 ^ f.fractionBits) :
    f.Stands (f.pack s e m) s (e + double.bias - f.bias) (m * 2 ^ (52 - f.fractionBits)) := by
  have he' := Nat.lt_trans he f.topExponent_lt
  refine ⟨pack_lt hs he' hm, ?_⟩
  simp only [Format.widen, sign_pack hs he' hm, exponent_pack he' hm, fraction_pack hm,
    Nat.ne_of_lt he, hzero, ne_eq, not_false_eq_true, if_true, if_false, Nat.shiftLeft_eq]

theorem stands_zero (hf : f.Narrower) (hs : s < 2) : f.Stands (f.pack s 0 0) s 0 0 := by
  have he := Nat.two_pow_pos f.exponentBits
  have hm := Nat.two_pow_pos f.fractionBits
  refine ⟨pack_lt hs he hm, ?_⟩
  simp only [Format.widen, sign_pack hs he hm, exponent_pack he hm, fraction_pack hm,
    Nat.ne_of_lt hf.exponent, ne_eq, not_true_eq_false, if_true, if_false]

theorem stands_subnormal {top : Nat} (hf : f.Narrower) (hs : s < 2) (hlow : 2 ^ top ≤ m)
    (hhigh : m < 2 ^ (top + 1)) (hm : m < 2 ^ f.fractionBits) :
    f.Stands (f.pack s 0 m) s (top + 1 + double.bias - f.bias - f.fractionBits)
      ((m - 2 ^ top) * 2 ^ (52 - top)) := by
  have he := Nat.two_pow_pos f.exponentBits
  have hzero : m ≠ 0 := Nat.ne_of_gt (Nat.lt_of_lt_of_le (Nat.two_pow_pos top) hlow)
  have htop : m.log2 = top := (Nat.log2_eq_iff hzero).mpr ⟨hlow, hhigh⟩
  refine ⟨pack_lt hs he hm, ?_⟩
  simp only [Format.widen, sign_pack hs he hm, exponent_pack he hm, fraction_pack hm,
    Nat.ne_of_lt hf.exponent, ne_eq, not_true_eq_false, if_false, hzero, htop, Nat.shiftLeft_eq,
    Nat.one_mul]

/-! ## Narrowing loses nothing -/

/-- A fraction whose last bits are zero fits without them. -/
theorem fraction_of_mod_eq_zero (hf : f.Narrower) (hm : m < 2 ^ 52)
    (h : m % 2 ^ (52 - f.fractionBits) = 0) :
    m / 2 ^ (52 - f.fractionBits) < 2 ^ f.fractionBits ∧
      m / 2 ^ (52 - f.fractionBits) * 2 ^ (52 - f.fractionBits) = m := by
  have hbits := hf.fraction
  refine ⟨?_, Nat.div_mul_cancel (Nat.dvd_of_mod_eq_zero h)⟩
  rw [Nat.div_lt_iff_lt_mul (Nat.two_pow_pos _), ← Nat.pow_add]
  exact Nat.lt_of_lt_of_le hm (Nat.pow_le_pow_right (by decide) (by omega))

/-- A fraction with its implicit bit that can be shifted right without loss then starts with that
bit at `52 - shift`, and what stands behind the bit gives the fraction again. -/
theorem shifted_of_mod_eq_zero {shift : Nat} (hm : m < 2 ^ 52)
    (h : (2 ^ 52 + m) % 2 ^ shift = 0) :
    shift ≤ 52 ∧ 2 ^ (52 - shift) ≤ (2 ^ 52 + m) / 2 ^ shift ∧
      (2 ^ 52 + m) / 2 ^ shift < 2 ^ (52 - shift + 1) ∧
      ((2 ^ 52 + m) / 2 ^ shift - 2 ^ (52 - shift)) * 2 ^ shift = m := by
  have hshift : shift ≤ 52 := by
    by_contra hlarge
    have hpow : 2 ^ 53 ≤ 2 ^ shift := Nat.pow_le_pow_right (by decide) (by omega)
    rw [Nat.mod_eq_of_lt (by omega)] at h
    omega
  have hone : 2 ^ (52 - shift) * 2 ^ shift = 2 ^ 52 := by
    rw [← Nat.pow_add, Nat.sub_add_cancel hshift]
  have htwo : 2 ^ (52 - shift + 1) * 2 ^ shift = 2 ^ 52 * 2 := by
    rw [Nat.pow_add_one, Nat.mul_right_comm, hone]
  have hquotient : (2 ^ 52 + m) / 2 ^ shift * 2 ^ shift = 2 ^ 52 + m :=
    Nat.div_mul_cancel (Nat.dvd_of_mod_eq_zero h)
  refine ⟨hshift, ?_, ?_, ?_⟩
  · rw [Nat.le_div_iff_mul_le (Nat.two_pow_pos shift), hone]
    omega
  · rw [Nat.div_lt_iff_lt_mul (Nat.two_pow_pos shift), htwo]
    omega
  · rw [Nat.sub_mul, hquotient, hone]
    omega

/-- The pattern that a number is narrowed to stands for the fields of the number. -/
theorem stands_of_narrow? (hf : f.Narrower) {x : Binary64} (h : f.narrow? x = some n) :
    f.Stands n (double.sign x.toNat) (double.exponent x.toNat) (double.fraction x.toNat) := by
  have hs : double.sign x.toNat < 2 := Nat.mod_lt _ (by decide)
  have hm : double.fraction x.toNat < 2 ^ 52 := Nat.mod_lt _ (by decide)
  have hspecial := @Binary64.fraction_of_topExponent x
  unfold narrow? at h
  simp only [Nat.shiftRight_eq_div_pow, Nat.shiftLeft_eq, Nat.one_mul] at h
  revert hs hm hspecial h
  generalize double.sign x.toNat = s
  generalize double.exponent x.toNat = e
  generalize double.fraction x.toNat = m
  intro hs hm hspecial h
  by_cases htop : e = double.topExponent
  · -- an infinity, or what is no number
    rw [if_pos htop] at h
    have hbits := hf.fraction_pos
    have hmod : m % 2 ^ (52 - f.fractionBits) = 0 := by
      rcases hspecial htop with rfl | rfl
      · exact Nat.zero_mod _
      · exact Nat.mod_eq_zero_of_dvd (Nat.pow_dvd_pow 2 (by omega))
    obtain ⟨hlt, hmul⟩ := fraction_of_mod_eq_zero hf hm hmod
    cases h
    have hstands := stands_top hs hlt
    rwa [hmul, ← htop] at hstands
  rw [if_neg htop] at h
  by_cases hzero : e = 0
  · rw [if_pos hzero] at h
    split at h
    · next hnothing =>
        cases h
        rw [hzero, hnothing]
        exact stands_zero hf hs
    · cases h
  rw [if_neg hzero] at h
  by_cases hnormal : double.bias < e + f.bias
  · rw [if_pos hnormal] at h
    split at h
    · next hfits =>
        obtain ⟨hlt, hmul⟩ := fraction_of_mod_eq_zero hf hm hfits.2
        cases h
        have hstands := stands_normal hs hfits.1 (by omega) hlt
        have hexponent : e + f.bias - double.bias + double.bias - f.bias = e := by omega
        rwa [hmul, hexponent] at hstands
    · cases h
  · rw [if_neg hnormal] at h
    split at h
    · next hfits =>
        obtain ⟨hshift, hlow, hhigh, hmul⟩ := shifted_of_mod_eq_zero hm hfits
        cases h
        revert hshift hlow hhigh hmul
        generalize hdef : 52 - f.fractionBits + (double.bias + 1 - f.bias - e) = shift
        intro hshift hlow hhigh hmul
        have hfraction := hf.fraction
        have hbias := hf.bias
        have hlt : (2 ^ 52 + m) / 2 ^ shift < 2 ^ f.fractionBits :=
          Nat.lt_of_lt_of_le hhigh (Nat.pow_le_pow_right (by decide) (by omega))
        have hstands := stands_subnormal hf hs hlow hhigh hlt
        have hexponent : 52 - shift + 1 + double.bias - f.bias - f.fractionBits = e := by omega
        rwa [Nat.sub_sub_self hshift, hmul, hexponent] at hstands
    · cases h

/-- **Narrowing loses nothing:** the pattern that a number is narrowed to stands for the number. -/
theorem widen_of_narrow? (hf : f.Narrower) {x : Binary64} (h : f.narrow? x = some n) :
    n < 2 ^ f.bits ∧ f.widen n = x := by
  obtain ⟨hlt, hwiden⟩ := stands_of_narrow? hf h
  rw [pack_fields x.toNat_lt, x.ofBits_toNat] at hwiden
  exact ⟨hlt, hwiden⟩

end Format
end TraceAtlas.Cbor
