namespace DocRelay

/-!
# Binary floating-point numbers

Numbers of the 64-bit binary interchange format, held as their bits and computed on with exact
integer arithmetic: every operation takes the exact result as a ratio and rounds it once.

* `Binary64.significand`, `Binary64.exponent` — a finite number is
  `± significand · 2 ^ exponent`;
* `Binary64.ofRatio` — the number nearest to a ratio, ties to the even significand;
* `Binary64.mul`, `Binary64.div`, `Binary64.ofInt`, `Binary64.ofDecimal` — the operations that
  reading numbers needs;
* `Binary64.same` — equality of values, which does not tell the two zeros apart.
-/

/-- A number of the 64-bit binary format. -/
structure Binary64 where
  /-- The sign bit, eleven bits of exponent and fifty-two of fraction. -/
  bits : UInt64
deriving DecidableEq, Repr

namespace Binary64

/-- The bits below the sign. -/
def magnitude (x : Binary64) : Nat :=
  x.bits.toNat % (1 <<< 63)

/-- The sign bit is set. -/
def isNegative (x : Binary64) : Bool :=
  1 <<< 63 ≤ x.bits.toNat

/-- The magnitude from which on there is no finite number. -/
def infinityMagnitude : Nat := 0x7FF <<< 52

/-- The number is neither an infinity nor a NaN. -/
def isFinite (x : Binary64) : Bool :=
  x.magnitude < infinityMagnitude

/-- The number is one of the two zeros. -/
def isZero (x : Binary64) : Bool :=
  x.magnitude == 0

/-- The number with this sign and these lower bits. -/
def ofMagnitude (negative : Bool) (magnitude : Nat) : Binary64 :=
  ⟨UInt64.ofNat (if negative then (1 <<< 63) + magnitude else magnitude)⟩

/-- Zero with a sign. -/
def zero (negative : Bool) : Binary64 :=
  ofMagnitude negative 0

/-- Infinity with a sign. -/
def infinity (negative : Bool) : Binary64 :=
  ofMagnitude negative infinityMagnitude

/-- A quiet NaN. -/
def nan : Binary64 :=
  ofMagnitude false (infinityMagnitude + (1 <<< 51))

/-- The integer factor of a finite number. -/
def significand (x : Binary64) : Nat :=
  let fraction := x.magnitude % (1 <<< 52)
  if x.magnitude < 1 <<< 52 then fraction else fraction + (1 <<< 52)

/-- The power of two that multiplies the significand. -/
def exponent (x : Binary64) : Int :=
  if x.magnitude < 1 <<< 52 then -1074 else (x.magnitude >>> 52 : Nat) - 1075

/-- The quotient rounded to the nearest integer, a tie to the even one. -/
def roundDiv (num den : Nat) : Nat :=
  let quotient := num / den
  let twice := 2 * (num % den)
  if twice < den || (twice == den && quotient % 2 == 0) then quotient else quotient + 1

/-- The largest `k` with `2 ^ k ≤ num / den`. -/
def floorLog2 (num den : Nat) : Int :=
  let guess : Int := (Nat.log2 num : Int) - Nat.log2 den
  let reached :=
    if 0 ≤ guess then den <<< guess.toNat ≤ num else den ≤ num <<< (-guess).toNat
  if reached then guess else guess - 1

/-- The number nearest to `num / den`; a tie goes to the even significand, and a ratio past the
    largest number gives infinity. -/
def ofRatio (negative : Bool) (num den : Nat) : Binary64 :=
  if num == 0 then zero negative
  else
    let scale := max (floorLog2 num den - 52) (-1074)
    let rounded :=
      if 0 ≤ scale then roundDiv num (den <<< scale.toNat)
      else roundDiv (num <<< (-scale).toNat) den
    let magnitude := ((scale + 1074).toNat <<< 52) + rounded
    ofMagnitude negative (min magnitude infinityMagnitude)

/-- The number nearest to `num / den · 2 ^ power`. -/
def ofScaled (negative : Bool) (num den : Nat) (power : Int) : Binary64 :=
  if 0 ≤ power then ofRatio negative (num <<< power.toNat) den
  else ofRatio negative num (den <<< (-power).toNat)

/-- The rounded product of two finite numbers. -/
def mul (x y : Binary64) : Binary64 :=
  ofScaled (x.isNegative != y.isNegative) (x.significand * y.significand) 1
    (x.exponent + y.exponent)

/-- The rounded quotient of two finite numbers, the second not zero. -/
def div (x y : Binary64) : Binary64 :=
  ofScaled (x.isNegative != y.isNegative) x.significand y.significand (x.exponent - y.exponent)

/-- The number nearest to an integer. -/
def ofInt (n : Int) : Binary64 :=
  ofRatio (n < 0) n.natAbs 1

/-- The number nearest to `± coefficient · 10 ^ power`. -/
def ofDecimal (negative : Bool) (coefficient : Nat) (power : Int) : Binary64 :=
  if 0 ≤ power then ofRatio negative (coefficient * Nat.pow 10 power.toNat) 1
  else ofRatio negative coefficient (Nat.pow 10 (-power).toNat)

/-- The same number with the other sign. -/
def neg (x : Binary64) : Binary64 :=
  ofMagnitude (!x.isNegative) x.magnitude

/-- The two numbers are equal as values: the zeros are equal, a NaN equals nothing. -/
def same (x y : Binary64) : Bool :=
  (x.isZero && y.isZero) || (x.bits == y.bits && x.magnitude ≤ infinityMagnitude)

/-- Negating keeps the lower bits. -/
theorem magnitude_neg (x : Binary64) : x.neg.magnitude = x.magnitude := by
  have hx : x.magnitude < 1 <<< 63 := Nat.mod_lt _ (by decide)
  unfold neg ofMagnitude
  split <;> simp only [magnitude, Nat.one_shiftLeft, UInt64.toNat_ofNat'] at hx ⊢ <;> omega

end Binary64

end DocRelay
