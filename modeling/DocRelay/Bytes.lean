namespace DocRelay

/-!
# Byte strings

Byte strings are lists of bytes.  Words are written low byte first.

* `Bytes.ofNat width n` — the low `width` bytes of `n`, low byte first;
* `Bytes.toNat` — the number that a low-byte-first string spells;
* `Bytes.length_ofNat`, `Bytes.toNat_ofNat` — the written word has its width and reads back.
-/

/-- A string of bytes. -/
abbrev Bytes := List UInt8

namespace Bytes

/-- The low `width` bytes of `n`, low byte first. -/
def ofNat : Nat → Nat → Bytes
  | 0, _ => []
  | width + 1, n => UInt8.ofNat n :: ofNat width (n / 256)

/-- The number that the bytes spell, low byte first. -/
def toNat : Bytes → Nat
  | [] => 0
  | b :: rest => b.toNat + 256 * toNat rest

@[simp] theorem length_ofNat (width n : Nat) : (ofNat width n).length = width := by
  induction width generalizing n with
  | zero => rfl
  | succ width ih => simp [ofNat, ih]

/-- A word reads back as the number it was made from, up to its width. -/
theorem toNat_ofNat (width n : Nat) : toNat (ofNat width n) = n % (1 <<< (8 * width)) := by
  rw [Nat.one_shiftLeft, Nat.pow_mul]
  change toNat (ofNat width n) = n % 256 ^ width
  induction width generalizing n with
  | zero => simp [ofNat, toNat, Nat.mod_one]
  | succ width ih =>
    have low : (UInt8.ofNat n).toNat = n % 256 := by simp
    rw [ofNat, toNat, ih, low, Nat.pow_succ, Nat.mul_comm (256 ^ width) 256, Nat.mod_mul]

end Bytes

end DocRelay
