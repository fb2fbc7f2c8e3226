import DocRelay.Json.Basic
import DocRelay.Toml.Strings

namespace DocRelay.Toml

/-!
# Numbers of configuration texts

Integers in four bases, of 64 bits with a sign, and floating-point numbers.  Single underscores
may stand between digits.

* `readDigits` — digits with underscores between them;
* `readInteger`, `readFloat`, `readSpecial` — the kinds of numbers.
-/

/-- The digits that satisfy `p`, with single underscores between them, without these; `needed`
    tells that a digit must come next. -/
def readDigits (p : Char → Bool) (needed : Bool) :
    List Char → Option (List Char × List Char)
  | [] => if needed then none else some ([], [])
  | c :: rest =>
    if p c then (readDigits p false rest).map fun (others, after) => (c :: others, after)
    else if c == '_' && !needed then readDigits p true rest
    else if needed then none
    else some ([], c :: rest)

/-- The sign of a number: whether it is negative. -/
def readSign : List Char → Bool × List Char
  | '+' :: rest => (false, rest)
  | '-' :: rest => (true, rest)
  | cs => (false, cs)

/-- Decimal digits without leading zeros. -/
def readDecimalDigits (cs : List Char) : Option (List Char × List Char) :=
  match cs with
  | '0' :: rest => some (['0'], rest)
  | cs => readDigits Char.isDigit true cs

/-- The number, if it has 64 bits with a sign. -/
def signed64? (n : Int) : Option Json :=
  if -0x8000000000000000 ≤ n && n < 0x8000000000000000 then some (.int n) else none

/-- The digits of a base behind its mark. -/
def readBased (base : Nat) (cs : List Char) : Option (Json × List Char) := do
  let (digits, rest) ← readDigits (fun c => (hexDigit? c).any (· < base)) true cs
  let n ← digitsIn base digits
  return (← signed64? n, rest)

/-- An integer. -/
def readInteger (cs : List Char) : Option (Json × List Char) :=
  match cs with
  | '0' :: 'x' :: rest => readBased 16 rest
  | '0' :: 'o' :: rest => readBased 8 rest
  | '0' :: 'b' :: rest => readBased 2 rest
  | cs => do
    let (negative, rest) := readSign cs
    let (digits, rest) ← readDecimalDigits rest
    let n : Int := (← digitsIn 10 digits : Nat)
    return (← signed64? (if negative then -n else n), rest)

/-- The exponent of a floating-point number, if there is one. -/
def readExponent (cs : List Char) : Option (Option Int × List Char) :=
  match cs with
  | 'e' :: rest | 'E' :: rest => do
    let (negative, rest) := readSign rest
    let (digits, rest) ← readDigits Char.isDigit true rest
    let n : Int := (← digitsIn 10 digits : Nat)
    return (some (if negative then -n else n), rest)
  | cs => some (none, cs)

/-- The number nearest to a decimal of so many significant digits.  Far past the range of finite
    numbers nothing has to be computed. -/
def decimalValue (negative : Bool) (coefficient : Nat) (digits : Nat) (power : Int) : Binary64 :=
  let place := digits + power
  if coefficient == 0 then Binary64.zero negative
  else if 310 < place then Binary64.infinity negative
  else if place < -330 then Binary64.zero negative
  else Binary64.ofDecimal negative coefficient power

/-- A floating-point number: digits with a fraction, an exponent, or both.  One that is too large
    is refused unless it is negative. -/
def readFloat (cs : List Char) : Option (Json × List Char) := do
  let (negative, rest) := readSign cs
  let (whole, rest) ← readDecimalDigits rest
  let (fraction, rest) ←
    match rest with
    | '.' :: after => readDigits Char.isDigit true after
    | rest => some ([], rest)
  let (exponent, rest) ← readExponent rest
  if fraction.isEmpty && exponent.isNone then none
  else
    let digits := whole ++ fraction
    let coefficient ← digitsIn 10 digits
    let power := exponent.getD 0 - fraction.length
    let x := decimalValue negative coefficient (digits.dropWhile (· == '0')).length power
    if !x.isFinite && !negative then none else some (.float x, rest)

/-- An infinity or a NaN. -/
def readSpecial (cs : List Char) : Option (Json × List Char) := do
  let (negative, rest) := readSign cs
  match rest with
  | 'i' :: 'n' :: 'f' :: rest => some (.float (Binary64.infinity negative), rest)
  | 'n' :: 'a' :: 'n' :: rest =>
    some (.float (if negative then Binary64.nan.neg else Binary64.nan), rest)
  | _ => none

end DocRelay.Toml
