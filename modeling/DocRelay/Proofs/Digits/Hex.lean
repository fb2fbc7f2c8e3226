import DocRelay.Digits.Hex
import DocRelay.Proofs.Results
import DocRelay.Proofs.Text.Utf8

namespace DocRelay.Hex

/-!
# What hexadecimal digits spell

Two digits spell a byte, each of them in lower or in upper case.

* `utf8Chars_text` — digits that are written, as a text and as bytes;
* `IsDigit`, `Spells` — the digits of a number, and those of some bytes;
* `isDigit_of_value?`, `value?_of_isDigit` — a digit and its number;
* `decode_eq_ok_iff` — what is read as some bytes are the digits that spell them.
-/

/-! ### Digits that are written -/

/-- A digit is an ASCII character. -/
theorem digit_lt : ∀ n < 16, digit n < 0x80 := by decide

theorem lt_of_mem_encode {bytes : Bytes} {d : UInt8} (h : d ∈ encode bytes) : d < 0x80 := by
  induction bytes with
  | nil => cases h
  | cons b rest ih =>
    have hb := b.toNat_lt
    simp only [encode, List.mem_cons] at h
    rcases h with rfl | rfl | h
    · exact digit_lt _ (by omega)
    · exact digit_lt _ (by omega)
    · exact ih h

/-- The characters of the digits are the digits. -/
theorem utf8Chars_text (bytes : Bytes) :
    Text.utf8Chars (text bytes).toList = encode bytes := by
  rw [text, String.toList_ofList]
  exact Text.utf8Chars_ascii fun d => lt_of_mem_encode

/-! ### Digits in either case -/

/-- The digits in lower case, by their numbers. -/
def lowerDigits : List Char := "0123456789abcdef".toList

/-- The digits in upper case, by their numbers. -/
def upperDigits : List Char := "0123456789ABCDEF".toList

/-- A character is a digit of a number below sixteen. -/
def IsDigit (c : Char) (n : Nat) : Prop :=
  lowerDigits[n]? = some c ∨ upperDigits[n]? = some c

instance (c : Char) (n : Nat) : Decidable (IsDigit c n) :=
  inferInstanceAs (Decidable (_ ∨ _))

/-- Characters spell some bytes: two digits for each of them, the higher one first. -/
inductive Spells : List Char → Bytes → Prop where
  | nil : Spells [] []
  | cons {high low : Char} {b : UInt8} {rest : List Char} {bytes : Bytes}
    (higher : IsDigit high (b.toNat / 16)) (lower : IsDigit low (b.toNat % 16))
    (others : Spells rest bytes) : Spells (high :: low :: rest) (b :: bytes)

/-- What has a value is an ASCII character, and a digit of its value. -/
theorem isDigit_of_value? {b : UInt8} {n : Nat} (h : value? b = some n) :
    b < 0x80 ∧ n < 16 ∧ IsDigit (Char.ofNat b.toNat) n := by
  have hall : ∀ b : UInt8, ∀ n ∈ value? b,
      b < 0x80 ∧ n < 16 ∧ IsDigit (Char.ofNat b.toNat) n :=
    Text.forall_byte (by decide +kernel)
  exact hall b n h

/-- A digit is an ASCII character, and the value of its byte is its number. -/
theorem value?_of_isDigit {c : Char} {n : Nat} (h : IsDigit c n) :
    c.toNat < 0x80 ∧ value? (UInt8.ofNat c.toNat) = some n := by
  have hall : ∀ n < 16, ∀ cs ∈ [lowerDigits, upperDigits],
      (cs.getD n '0').toNat < 0x80 ∧ value? (UInt8.ofNat (cs.getD n '0').toNat) = some n := by
    decide +kernel
  have hn : n < 16 := by
    rcases h with h | h <;> exact (List.getElem?_eq_some_iff.mp h).1
  rcases h with h | h
  · have hlower := hall n hn lowerDigits (by simp)
    rwa [List.getD_eq_getElem?_getD, h] at hlower
  · have hupper := hall n hn upperDigits (by simp)
    rwa [List.getD_eq_getElem?_getD, h] at hupper

theorem isDigit_of_valueAt {position n : Nat} {b : UInt8} (h : valueAt position b = .ok n) :
    b < 0x80 ∧ n < 16 ∧ IsDigit (Char.ofNat b.toNat) n := by
  rw [valueAt] at h
  cases hv : value? b with
  | none => simp [hv] at h
  | some m =>
    rw [hv] at h
    obtain rfl := Except.ok.inj h
    exact isDigit_of_value? hv

/-! ### Digits that are read -/

/-- The halves of a byte are the numbers that it was made from. -/
theorem halves_ofNat {high low : Nat} (hhigh : high < 16) (hlow : low < 16) :
    (UInt8.ofNat (16 * high + low)).toNat / 16 = high ∧
      (UInt8.ofNat (16 * high + low)).toNat % 16 = low := by
  rw [Text.toNat_byte (by omega)]
  omega

/-- Pairs of digits that are read as some bytes spell them. -/
theorem spells_of_decodePairs {position : Nat} {digits bytes : Bytes}
    (heven : digits.length % 2 = 0) (h : decodePairs position digits = .ok bytes) :
    (∀ d ∈ digits, d < 0x80) ∧ Spells (digits.map fun d => Char.ofNat d.toNat) bytes := by
  induction position, digits using decodePairs.induct generalizing bytes with
  | case1 position high low rest ih =>
    rw [decodePairs] at h
    obtain ⟨x, hx, h⟩ := exists_of_bind_ok h
    obtain ⟨y, hy, h⟩ := exists_of_bind_ok h
    obtain ⟨others, hothers, h⟩ := exists_of_bind_ok h
    obtain rfl := Except.ok.inj h
    obtain ⟨hhigh, hx, hhigher⟩ := isDigit_of_valueAt hx
    obtain ⟨hlow, hy, hlower⟩ := isDigit_of_valueAt hy
    obtain ⟨hrest, hspells⟩ := ih (by simp only [List.length_cons] at heven; omega) hothers
    -- Each digit stands for one half of the byte.
    obtain ⟨hupperHalf, hlowerHalf⟩ := halves_ofNat hx hy
    refine ⟨?_, .cons ?_ ?_ hspells⟩
    · simp only [List.forall_mem_cons]
      exact ⟨hhigh, hlow, hrest⟩
    · rw [hupperHalf]
      exact hhigher
    · rw [hlowerHalf]
      exact hlower
  | case2 digits position hshort =>
    -- No digit is left over, as there are evenly many.
    rcases digits with _ | ⟨high, _ | ⟨low, rest⟩⟩
    · obtain rfl := Except.ok.inj h
      exact ⟨by simp, .nil⟩
    · simp at heven
    · exact absurd rfl (hshort high low rest)

/-- There are two digits for each byte. -/
theorem Spells.length_eq {cs : List Char} {bytes : Bytes} (h : Spells cs bytes) :
    cs.length = 2 * bytes.length := by
  induction h with
  | nil => rfl
  | cons _ _ _ ih =>
    simp only [List.length_cons]
    omega

/-- Digits that spell some bytes are one byte each. -/
theorem Spells.utf8Chars {cs : List Char} {bytes : Bytes} (h : Spells cs bytes) :
    Text.utf8Chars cs = cs.map fun c => UInt8.ofNat c.toNat := by
  induction h with
  | nil => rfl
  | cons higher lower _ ih =>
    obtain ⟨hhigh, -⟩ := value?_of_isDigit higher
    obtain ⟨hlow, -⟩ := value?_of_isDigit lower
    rw [Text.utf8Chars] at ih
    simp [Text.utf8Chars, Text.utf8EncodeChar_of_ascii hhigh, Text.utf8EncodeChar_of_ascii hlow, ih]

/-- Digits that spell some bytes are read as them, from any position on. -/
theorem Spells.decodePairs {cs : List Char} {bytes : Bytes} (h : Spells cs bytes)
    (position : Nat) :
    decodePairs position (cs.map fun c => UInt8.ofNat c.toNat) = .ok bytes := by
  induction h generalizing position with
  | nil => rfl
  | @cons high low b rest bytes higher lower _ ih =>
    obtain ⟨-, hx⟩ := value?_of_isDigit higher
    obtain ⟨-, hy⟩ := value?_of_isDigit lower
    have hsum : 16 * (b.toNat / 16) + b.toNat % 16 = b.toNat := Nat.div_add_mod _ _
    rw [List.map_cons, List.map_cons, Hex.decodePairs, valueAt, hx, valueAt, hy, ih]
    show Except.ok (UInt8.ofNat (16 * (b.toNat / 16) + b.toNat % 16) :: bytes) = _
    rw [hsum, UInt8.ofNat_toNat]

/-- **Characters are read as some bytes** exactly if they are digits that spell the bytes. -/
theorem decode_eq_ok_iff {cs : List Char} {bytes : Bytes} :
    decode (Text.utf8Chars cs) = .ok bytes ↔ Spells cs bytes := by
  constructor
  · intro h
    rw [decode] at h
    split at h
    · cases h
    · rename_i heven
      obtain ⟨hascii, hspells⟩ := spells_of_decodePairs (by simp at heven; omega) h
      -- Bytes that are ASCII characters are the bytes of no other characters.
      have hread := Text.ofUtf8From_utf8Chars 0 cs
      rw [← Text.utf8Chars_ascii hascii, Text.ofUtf8From_utf8Chars] at hread
      rw [← Except.ok.inj hread]
      exact hspells
  · intro h
    rw [decode, h.utf8Chars, if_neg (by simp [h.length_eq]), h.decodePairs]

/-- The two digits of a byte may be of different cases. -/
example : decode (Text.utf8Chars ['a', 'F']) = .ok [0xAF] := rfl

end DocRelay.Hex
