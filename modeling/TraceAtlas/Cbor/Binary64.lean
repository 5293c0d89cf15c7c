/-!
# Binary floating-point numbers by their bits

A `Binary64` is the bit pattern of a double-precision number in which all NaNs are one and the same,
so that equality of the type is equality of the number read as data (zero keeps its sign).

Shorter formats are described by a `Format`: `Format.widen` reads a bit pattern of the format as a
`Binary64`, and `Format.narrow?` finds the pattern of the format that has exactly a given value, if
there is one. Both work on natural numbers: a pattern is a sign bit, a biased exponent and a
fraction.
-/

namespace TraceAtlas.Cbor

/-- An interchange format: how many bits hold the exponent and how many the fraction. -/
structure Format where
  exponentBits : Nat
  fractionBits : Nat
deriving DecidableEq, Repr

namespace Format

def half : Format := ⟨5, 10⟩

def single : Format := ⟨8, 23⟩

def double : Format := ⟨11, 52⟩

/-- The exponent field of the number one. -/
def bias (f : Format) : Nat := (1 <<< (f.exponentBits - 1)) - 1

/-- The exponent field of infinities and NaNs. -/
def topExponent (f : Format) : Nat := (1 <<< f.exponentBits) - 1

def sign (f : Format) (n : Nat) : Nat := n >>> (f.exponentBits + f.fractionBits) % 2

def exponent (f : Format) (n : Nat) : Nat := n >>> f.fractionBits % (1 <<< f.exponentBits)

def fraction (f : Format) (n : Nat) : Nat := n % (1 <<< f.fractionBits)

def pack (f : Format) (sign exponent fraction : Nat) : Nat :=
  (sign <<< f.exponentBits + exponent) <<< f.fractionBits + fraction

/-- Whether a pattern stands for no number. -/
def isNaN (f : Format) (n : Nat) : Bool := f.exponent n == f.topExponent && f.fraction n != 0

end Format

def quietNaN : UInt64 := 0x7ff8000000000000

/-- A double-precision number by its bit pattern, all NaNs identified. -/
structure Binary64 where
  /-- Sign, exponent and fraction, from the top bit down. -/
  bits : UInt64
  bits_of_isNaN : Format.double.isNaN bits.toNat = true → bits = quietNaN
deriving DecidableEq

namespace Binary64

def ofBits (bits : UInt64) : Binary64 :=
  if h : Format.double.isNaN bits.toNat = true then ⟨quietNaN, fun _ => rfl⟩
  else ⟨bits, fun h' => absurd h' h⟩

def nan : Binary64 := ⟨quietNaN, fun _ => rfl⟩

def isNaN (x : Binary64) : Bool := Format.double.isNaN x.bits.toNat

def toNat (x : Binary64) : Nat := x.bits.toNat

theorem ofBits_bits (x : Binary64) : ofBits x.bits = x := by
  unfold ofBits
  split
  · next h => cases x with | mk b hb => simp [hb h]
  · rfl

end Binary64

namespace Format

/-- The number that a pattern of the format stands for. A subnormal pattern is scaled so that its
top fraction bit becomes the implicit one. -/
def widen (f : Format) (n : Nat) : Binary64 :=
  let s := f.sign n
  let e := f.exponent n
  let m := f.fraction n
  let wide :=
    if e = f.topExponent then double.pack s double.topExponent (m <<< (52 - f.fractionBits))
    else if e ≠ 0 then
      double.pack s (e + double.bias - f.bias) (m <<< (52 - f.fractionBits))
    else if m = 0 then double.pack s 0 0
    else
      let top := Nat.log2 m
      double.pack s (top + 1 + double.bias - f.bias - f.fractionBits)
        ((m - (1 <<< top)) <<< (52 - top))
  Binary64.ofBits (UInt64.ofNat wide)

/-- The pattern of the format that stands for exactly this number. -/
def narrow? (f : Format) (x : Binary64) : Option Nat :=
  let s := double.sign x.toNat
  let e := double.exponent x.toNat
  let m := double.fraction x.toNat
  if e = double.topExponent then
    some (f.pack s f.topExponent (m >>> (52 - f.fractionBits)))
  else if e = 0 then
    if m = 0 then some (f.pack s 0 0) else none
  else if double.bias < e + f.bias then
    -- a normal number of the format, if the exponent is in range and the fraction fits
    if e + f.bias - double.bias < f.topExponent ∧ m % (1 <<< (52 - f.fractionBits)) = 0 then
      some (f.pack s (e + f.bias - double.bias) (m >>> (52 - f.fractionBits)))
    else none
  else
    -- below the normal range: the implicit bit becomes part of the fraction
    let shift := 52 - f.fractionBits + (double.bias + 1 - f.bias - e)
    let whole := (1 <<< 52) + m
    if whole % (1 <<< shift) = 0 then some (f.pack s 0 (whole >>> shift)) else none

-- one and a half, the least half-precision number, and half of that
example : half.narrow? (.ofBits 0x3ff8000000000000) = some 0x3e00 := by decide
example : half.narrow? (.ofBits 0x3e70000000000000) = some 0x0001 := by decide
example : half.narrow? (.ofBits 0x3e60000000000000) = none := by decide
example : half.widen 0x0001 = .ofBits 0x3e70000000000000 := by decide

end Format
end TraceAtlas.Cbor
