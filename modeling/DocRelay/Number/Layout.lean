import DocRelay.Number.Shortest

namespace DocRelay

/-!
# Layout of decimals

How the digits of a number are written down.  A record fixes the decisions of a format: up to
which magnitudes the digits stand in their places, and how an exponent is written elsewhere.

* `Layout` — the decisions;
* `Layout.render` — the text of a finite number;
* `Layout.positional` — all digits in their places, whatever the magnitude.
-/

/-- The decisions of a format for numbers.  The point stands `place` digits after the first
    digit's left side: `12.5` has place 2, `0.05` has place -1. -/
structure Layout where
  /-- Digits stand in their places when the place of the point is at least this. -/
  least : Option Int
  /-- Digits stand in their places when the place of the point is at most this. -/
  greatest : Option Int
  /-- The least number of digits of an exponent. -/
  exponentWidth : Nat

namespace Layout

/-- All digits in their places. -/
def positional : Layout := ⟨none, none, 2⟩

/-- The digits with the point at its place and at least one digit on either side of it. -/
def inPlace (digits : List Char) (place : Int) : List Char :=
  let count : Int := digits.length
  if count ≤ place then digits ++ List.replicate (place - count).toNat '0' ++ ['.', '0']
  else if 0 < place then digits.take place.toNat ++ '.' :: digits.drop place.toNat
  else '0' :: '.' :: List.replicate (-place).toNat '0' ++ digits

/-- The digits with the point after the first one, and an exponent with its sign. -/
def withExponent (width : Nat) (digits : List Char) (place : Int) : List Char :=
  let mantissa :=
    match digits with
    | first :: second :: others => first :: '.' :: second :: others
    | short => short
  let exponent := place - 1
  let exponentDigits := Nat.toDigits 10 exponent.natAbs
  mantissa ++ 'e' :: (if exponent < 0 then '-' else '+')
    :: List.replicate (width - exponentDigits.length) '0' ++ exponentDigits

/-- The characters of a finite number. -/
def render (layout : Layout) (x : Binary64) : List Char :=
  let sign := if x.isNegative then ['-'] else []
  if x.isZero then sign ++ ['0', '.', '0']
  else
    let decimal := x.shortest
    let digits := Nat.toDigits 10 decimal.coefficient
    let place : Int := digits.length + decimal.power
    let placed := layout.least.all (· ≤ place) && layout.greatest.all (place ≤ ·)
    sign ++
      if placed then inPlace digits place else withExponent layout.exponentWidth digits place

end Layout

end DocRelay
