import AxisNotation.Scalar

/-!
# Half precision

Numbers of sixteen bits: a sign, five bits of exponent and ten of fraction. Arithmetic is done in
single precision and each result is rounded to the nearest half, a tie going to the one with an even
fraction.
-/

namespace AxisNotation

/-- A half-precision number, given by its bits. -/
structure Half where
  bits : UInt16
  deriving DecidableEq, Repr, Inhabited

namespace Half

/-- The quotient of `n` by `2 ^ k` rounded to the nearest natural number, a tie to the even one. -/
def roundShift (n k : Nat) : Nat :=
  let quotient := n >>> k
  let twice := 2 * (n - quotient <<< k)
  if 1 <<< k < twice ∨ (twice = 1 <<< k ∧ quotient % 2 = 1) then quotient + 1 else quotient

/-- The bits, without the sign, of the half nearest to `m * 2 ^ e`, where `m` is not zero. The
halves around this number are the multiples of `2 ^ unit`. -/
def magnitude (m : Nat) (e : Int) : Nat :=
  let unit := max (-24) (m.log2 + e - 10)
  let digits := if unit ≤ e then m <<< (e - unit).toNat else roundShift m (unit - e).toNat
  min ((unit + 24).toNat * 1024 + digits) 0x7c00

/-- The half nearest to `m * 2 ^ e`, or to its negative. -/
def round (negative : Bool) (m : Nat) (e : Int) : Half :=
  let size := if m = 0 then 0 else magnitude m e
  ⟨UInt16.ofNat ((if negative then 0x8000 else 0) + size)⟩

/-- The half nearest to an integer. -/
def ofInt (n : Int) : Half :=
  round (n < 0) n.natAbs 0

/-- Whether a half is not a number. -/
def isNaN (h : Half) : Bool :=
  0x7c00 < h.bits &&& 0x7fff

/-- The half nearest to a number of single precision. -/
def ofSingle (x : Float32) : Half :=
  let bits := x.toBits.toNat
  let negative := bits.testBit 31
  let exponent := (bits >>> 23) % 256
  let fraction := bits % 0x800000
  if exponent = 255 then
    if fraction = 0 then ⟨if negative then 0xfc00 else 0x7c00⟩ else ⟨0x7e00⟩
  else if exponent = 0 then round negative fraction (-149)
  else round negative (0x800000 + fraction) (exponent - 150)

/-- A half as a number of single precision, which is exact. -/
def toSingle (h : Half) : Float32 :=
  let bits := h.bits.toNat
  let exponent := (bits >>> 10) % 32
  let fraction := bits % 1024
  let size :=
    if exponent = 31 then
      Float32.ofBits (if fraction = 0 then 0x7f800000 else 0x7fc00000)
    else if exponent = 0 then Float32.ofNat fraction * Float32.ofBits 0x33800000
    else Float32.ofBits (UInt32.ofNat ((exponent + 112) <<< 23 + fraction <<< 13))
  if bits.testBit 15 then -size else size

/-- Half precision. -/
instance : Scalar Half where
  zero := ⟨0⟩
  one := ⟨0x3c00⟩
  add a b := ofSingle (a.toSingle + b.toSingle)
  mul a b := ofSingle (a.toSingle * b.toSingle)
  div a b := ofSingle (a.toSingle / b.toSingle)
  less a b := decide (a.toSingle < b.toSingle)
  ofCount n := ofInt n

/-- Halves have eleven binary digits: of 2049 and 2051, each goes to its even neighbour. -/
example : (ofInt 2049).bits = 0x6800 ∧ (ofInt 2051).bits = 0x6802 := by decide +kernel

/-- The largest half is 65504, and 65520 is the first number past the range. -/
example : (ofInt 65519).bits = 0x7bff ∧ (ofInt 65520).bits = 0x7c00 := by decide +kernel

/-- The smallest positive half is `2 ^ -24`. -/
example : (round false 1 (-24)).bits = 1 ∧ (round false 1 (-25)).bits = 0 := by decide +kernel

end Half

end AxisNotation
