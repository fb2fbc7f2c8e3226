import DocRelay.Json.Cursor

namespace DocRelay.Json

/-!
# Reading numbers

A number without fraction and exponent that fits 64 bits is an integer.  Of every other number
the leading digits that fit an unsigned 64-bit word are kept, the power of ten is applied in one
floating-point multiplication or division, and a result past the largest finite number is
refused.

* `absorb` — the leading digits that fit a word;
* `scale` — a word times a power of ten;
* `readNumber` — a number at a cursor.
-/

/-- The value of a decimal digit. -/
def digitValue (c : Char) : Nat := c.toNat - 48

/-- The largest unsigned word. -/
def maxWord : Nat := 0xFFFFFFFFFFFFFFFF

/-- The word grown by the leading digits that still fit, and how many digits those were. -/
def absorb (word : Nat) : List Char → Nat × Nat
  | [] => (word, 0)
  | c :: rest =>
    let grown := word * 10 + digitValue c
    if maxWord < grown then (word, 0)
    else
      let (final, count) := absorb grown rest
      (final, count + 1)

/-- The floating-point number nearest to a power of ten. -/
def powerOfTen (exponent : Nat) : Binary64 :=
  Binary64.ofDecimal false 1 exponent

/-- A non-negative number times a power of ten; `none` past the largest finite number.  Powers
    below the least one that has a floating-point inverse are applied in steps of 308. -/
def scale : Nat → Binary64 → Int → Option Binary64
  | 0, x, _ => some x
  | steps + 1, x, exponent =>
    if exponent.natAbs ≤ 308 then
      if 0 ≤ exponent then
        let product := x.mul (powerOfTen exponent.toNat)
        if product.isFinite then some product else none
      else some (x.div (powerOfTen exponent.natAbs))
    else if x.isZero then some x
    else if 0 ≤ exponent then none
    else scale steps (x.div (powerOfTen 308)) (exponent + 308)

/-- The number `± word · 10 ^ exponent`, or a fault at the cursor. -/
def floatOf (negative : Bool) (word : Nat) (exponent : Int) (cur : Cursor) :
    Except Fault (Json × Cursor) :=
  match scale 4 (Binary64.ofInt word) exponent with
  | some x => .ok (.float (if negative then x.neg else x), cur)
  | none => cur.fail .numberOutOfRange

/-- The integer with this sign and magnitude; a negative zero and a magnitude past the least
    signed word are floating-point numbers. -/
def integerOf (negative : Bool) (word : Nat) : Json :=
  if !negative then .int word
  else if word == 0 || 0x8000000000000000 < word then .float (Binary64.ofInt word).neg
  else .int (-word)

/-- The digits of an exponent that fit a signed 32-bit word, and how many they are. -/
def absorbExponent (word : Nat) : List Char → Nat × Nat
  | [] => (word, 0)
  | c :: rest =>
    let grown := word * 10 + digitValue c
    if 0x7FFFFFFF < grown then (word, 0)
    else
      let (final, count) := absorbExponent grown rest
      (final, count + 1)

/-- The exponent of a number, at the letter that begins it. -/
def readExponent (negative : Bool) (word : Nat) (power : Int) (cur : Cursor) :
    Except Fault (Json × Cursor) :=
  let cur := cur.advance
  let sign := cur.rest.head?
  let cur := if sign == some '+' || sign == some '-' then cur.advance else cur
  match cur.rest with
  | [] => cur.fail .endInValue
  | c :: _ =>
    if !c.isDigit then .error (.malformed .invalidNumber (cur.placeAfter 1))
    else
      let digits := cur.rest.takeWhile Char.isDigit
      let (exponent, count) := absorbExponent 0 digits
      let after := Cursor.advanceBy digits.length cur
      -- An exponent past 32 bits: only zero and numbers near zero come through.
      if count < digits.length then
        if word != 0 && sign != some '-' then
          (Cursor.advanceBy (count + 1) cur).fail .numberOutOfRange
        else .ok (.float (Binary64.zero negative), after)
      else
        floatOf negative word (if sign == some '-' then power - exponent else power + exponent)
          after

/-- What follows the digits of a number that is not an integer. -/
def finishFloat (negative : Bool) (word : Nat) (power : Int) (cur : Cursor) :
    Except Fault (Json × Cursor) :=
  match cur.rest with
  | 'e' :: _ | 'E' :: _ => readExponent negative word power cur
  | _ => floatOf negative word power cur

/-- The fraction of a number, at its point. -/
def readFraction (negative : Bool) (word : Nat) (power : Int) (cur : Cursor) :
    Except Fault (Json × Cursor) :=
  let cur := cur.advance
  let digits := cur.rest.takeWhile Char.isDigit
  if digits.isEmpty then
    cur.failAhead (if cur.rest.isEmpty then .endInValue else .invalidNumber)
  else
    let (grown, count) := absorb word digits
    finishFloat negative grown (power - count) (Cursor.advanceBy digits.length cur)

/-- A number behind its sign. -/
def readMagnitude (negative : Bool) (cur : Cursor) : Except Fault (Json × Cursor) :=
  match cur.rest with
  | [] => cur.fail .endInValue
  | c :: rest =>
    if !c.isDigit then .error (.malformed .invalidNumber (cur.placeAfter 1))
    else if c == '0' && (rest.head?.any Char.isDigit) then
      cur.advance.failAhead .invalidNumber
    else
      let digits := cur.rest.takeWhile Char.isDigit
      let (word, count) := absorb 0 digits
      let after := Cursor.advanceBy digits.length cur
      match after.rest with
      | '.' :: _ => readFraction negative word (digits.length - count : Nat) after
      | 'e' :: _ | 'E' :: _ => readExponent negative word (digits.length - count : Nat) after
      | _ =>
        if count == digits.length then .ok (integerOf negative word, after)
        else floatOf negative word (digits.length - count : Nat) after

/-- A number at its sign or its first digit. -/
def readNumber (cur : Cursor) : Except Fault (Json × Cursor) :=
  match cur.rest with
  | '-' :: _ => readMagnitude true cur.advance
  | _ => readMagnitude false cur

end DocRelay.Json
