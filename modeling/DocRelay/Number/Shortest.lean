import DocRelay.Number.Binary64

namespace DocRelay

/-!
# Shortest decimals

The fewest decimal digits that read back to a given number.  The reals that round to
`m · 2 ^ q` form an interval around it, its ends included exactly when `m` is even.  The
decimals with a given last place form a grid; going from coarse grids to fine ones, the first
grid with a point in the interval gives the digits.  Of two neighbours in the interval the
nearer one is taken, and of two equally near ones the even one.

* `Decimal` — a coefficient and a power of ten;
* `Binary64.interval` — the reals that round to the number, as multiples of one unit;
* `Binary64.shortest` — the decimal.
-/

/-- The number `coefficient · 10 ^ power`. -/
structure Decimal where
  coefficient : Nat
  power : Int
deriving DecidableEq, Repr

namespace Binary64

/-- The reals that round to one number: all between `low` and `high`, in units of
    `num / den`; `value` is the number itself. -/
structure Interval where
  low : Nat
  value : Nat
  high : Nat
  closed : Bool
  num : Nat
  den : Nat

/-- The reals that round to a finite positive number. -/
def interval (x : Binary64) : Interval :=
  let m := x.significand
  let q := x.exponent - 2
  let below := if m == 1 <<< 52 && -1074 < x.exponent then 1 else 2
  { low := 4 * m - below
    value := 4 * m
    high := 4 * m + 2
    closed := m % 2 == 0
    num := if 0 ≤ q then 1 <<< q.toNat else 1
    den := if 0 ≤ q then 1 else 1 <<< (-q).toNat }

/-- The decimal `point · num' / den'` of a grid lies in the interval; both sides are given over
    a common denominator. -/
def Interval.holds (i : Interval) (unit grid point : Nat) : Bool :=
  if i.closed then i.low * unit ≤ point * grid && point * grid ≤ i.high * unit
  else i.low * unit < point * grid && point * grid < i.high * unit

/-- The point of the grid of multiples of `10 ^ power` that stands for the number, if the
    interval holds one. -/
def Interval.onGrid (i : Interval) (power : Int) : Option Nat :=
  let unit := if 0 ≤ power then i.num else i.num * Nat.pow 10 (-power).toNat
  let grid := if 0 ≤ power then i.den * Nat.pow 10 power.toNat else i.den
  let below := i.value * unit / grid
  let gap := i.value * unit % grid
  match i.holds unit grid below && 0 < below, i.holds unit grid (below + 1) with
  | true, true =>
    if 2 * gap < grid || (2 * gap == grid && below % 2 == 0) then some below
    else some (below + 1)
  | true, false => some below
  | false, true => some (below + 1)
  | false, false => none

/-- The first grid with a point in the interval, from `10 ^ power` down. -/
def Interval.search (i : Interval) : Nat → Int → Decimal
  | 0, power => ⟨0, power⟩
  | places + 1, power =>
    match i.onGrid power with
    | some point => ⟨point, power⟩
    | none => i.search places (power - 1)

/-- The shortest decimal that reads back to the magnitude of a finite number. -/
def shortest (x : Binary64) : Decimal :=
  if x.isZero then ⟨0, 0⟩
  else
    let log2 : Int := (Nat.log2 x.significand : Int) + x.exponent
    x.interval.search 24 (log2 * 30103 / 100000 + 2)

end Binary64

end DocRelay
