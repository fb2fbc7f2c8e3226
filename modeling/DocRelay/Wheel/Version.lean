import DocRelay.Text.Split

namespace DocRelay.Wheel

/-!
# Versions

Versions are compared segment by segment.  Two segments that are both numbers compare as
numbers, any other two as texts; a version that the other one continues comes first.

* `segmentNumber?` — the number of a segment, if it is one;
* `compareSegments`, `compareVersions` — the order.
-/

/-- The segments between the dots. -/
def segments (version : String) : List (List Char) :=
  Text.split (· == '.') version.toList

/-- The number that the digits spell. -/
def digitsValue (digits : List Char) : Nat :=
  digits.foldl (fun n c => n * 10 + (c.toNat - 48)) 0

/-- The number of a segment: digits, perhaps after a plus sign, of a value below `2 ^ 64`. -/
def segmentNumber? (segment : List Char) : Option Nat :=
  let digits :=
    match segment with
    | '+' :: rest => rest
    | digits => digits
  if digits.isEmpty || !digits.all Char.isDigit then none
  else
    let n := digitsValue digits
    if n ≤ 0xFFFFFFFFFFFFFFFF then some n else none

/-- The order of two segments. -/
def compareSegment (a b : List Char) : Ordering :=
  match segmentNumber? a, segmentNumber? b with
  | some m, some n => compare m n
  | _, _ => compare (String.ofList a) (String.ofList b)

/-- The order of two lists of segments. -/
def compareSegments : List (List Char) → List (List Char) → Ordering
  | [], [] => .eq
  | [], _ :: _ => .lt
  | _ :: _, [] => .gt
  | a :: as, b :: bs => (compareSegment a b).then (compareSegments as bs)

/-- The order of two versions. -/
def compareVersions (a b : String) : Ordering :=
  compareSegments (segments a) (segments b)

end DocRelay.Wheel
