import DocRelay.Bytes
import DocRelay.Text.Quoted

namespace DocRelay.Hex

/-!
# Hexadecimal digits

Bytes as pairs of hexadecimal digits.  They are written in lower case and read in either case.

* `encode`, `decode` — the two directions;
* `Fault` — why a text spells no bytes: an odd number of digits is noticed first;
* `decode_encode` — what was written reads back.
-/

/-- Why a text spells no bytes. -/
inductive Fault where
  | oddLength
  | notADigit (byte : UInt8) (position : Nat)
deriving DecidableEq, Repr

/-- The wording of the fault; a byte is shown as the character of its number. -/
def Fault.message : Fault → String
  | .oddLength => "Odd number of digits"
  | .notADigit byte position =>
    "Invalid character " ++ Text.quotedChar (Char.ofNat byte.toNat) ++ " at position "
      ++ toString position

/-- The digit of a number below sixteen. -/
def digit (n : Nat) : UInt8 :=
  if n < 10 then UInt8.ofNat (0x30 + n) else UInt8.ofNat (0x57 + n)

/-- The value of a digit. -/
def value? (b : UInt8) : Option Nat :=
  let n := b.toNat
  if 0x30 ≤ n && n ≤ 0x39 then some (n - 0x30)
  else if 0x61 ≤ n && n ≤ 0x66 then some (n - 0x57)
  else if 0x41 ≤ n && n ≤ 0x46 then some (n - 0x37)
  else none

/-- The digits of the bytes. -/
def encode : Bytes → Bytes
  | [] => []
  | b :: rest => digit (b.toNat / 16) :: digit (b.toNat % 16) :: encode rest

/-- The digits of the bytes as a text. -/
def text (bytes : Bytes) : String :=
  String.ofList ((encode bytes).map fun b => Char.ofNat b.toNat)

/-- The value of the digit at a position. -/
def valueAt (position : Nat) (b : UInt8) : Except Fault Nat :=
  match value? b with
  | some n => .ok n
  | none => .error (.notADigit b position)

/-- The bytes that pairs of digits spell, from a position on. -/
def decodePairs : Nat → Bytes → Except Fault Bytes
  | position, high :: low :: rest => do
    let h ← valueAt position high
    let l ← valueAt (position + 1) low
    let others ← decodePairs (position + 2) rest
    return UInt8.ofNat (16 * h + l) :: others
  | _, _ => .ok []

/-- The bytes that the digits spell. -/
def decode (digits : Bytes) : Except Fault Bytes :=
  if digits.length % 2 == 1 then .error .oddLength else decodePairs 0 digits

/-- A digit has the value it was made from. -/
theorem value?_digit : ∀ n < 16, value? (digit n) = some n := by decide

@[simp] theorem length_encode (bytes : Bytes) : (encode bytes).length = 2 * bytes.length := by
  induction bytes with
  | nil => rfl
  | cons b rest ih => simp [encode, ih]; omega

/-- Written pairs read back from any position. -/
theorem decodePairs_encode (position : Nat) (bytes : Bytes) :
    decodePairs position (encode bytes) = .ok bytes := by
  induction bytes generalizing position with
  | nil => rfl
  | cons b rest ih =>
    have hb : b.toNat < 256 := b.toNat_lt
    have hh : value? (digit (b.toNat / 16)) = some (b.toNat / 16) :=
      value?_digit _ (by omega)
    have hl : value? (digit (b.toNat % 16)) = some (b.toNat % 16) :=
      value?_digit _ (by omega)
    have hsum : 16 * (b.toNat / 16) + b.toNat % 16 = b.toNat := Nat.div_add_mod _ _
    simp [encode, decodePairs, valueAt, hh, hl, ih, hsum, bind, Except.bind, pure, Except.pure]

/-- What was written reads back. -/
theorem decode_encode (bytes : Bytes) : decode (encode bytes) = .ok bytes := by
  have : ¬ (encode bytes).length % 2 = 1 := by rw [length_encode]; omega
  simp only [decode, beq_iff_eq, this, if_false, decodePairs_encode]

end DocRelay.Hex
