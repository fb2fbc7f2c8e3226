import DocRelay.Proofs.Digits.Base64
import DocRelay.Proofs.Results
import Mathlib.Data.Nat.Digits.Defs

namespace DocRelay

/-!
# The one text of a buffer

A buffer is a number in base 256 and its text the same number in base 64, with a letter for each
digit.  Three bytes are four digits; where the last group lacks bytes, the digits that they would
need are padding, and the bits that are left over are zero.  Each buffer has exactly one such text,
and this is the only one that is read as the buffer.

* `Base64.encode_of_decodeLast`, `encode_of_decodeGroups`, `encode_of_decode` — symbols that spell
  some bytes are the symbols of these bytes;
* `Base64.IsNumeralOf`, `Base64.IsTextOf` — digits and texts that are the number of the bytes;
* `Base64.exists_encode_eq`, `Base64.IsNumeralOf.unique` — there are digits for all bytes, and no
  others;
* `Buffer.decode_canonical` — a text is read as a buffer exactly if it is the text of the buffer.
-/

namespace Base64

/-! ### Symbols that are read -/

/-- What has a value is the symbol of its value. -/
theorem symbol_of_value? {b : UInt8} {n : Nat} (h : value? b = some n) :
    n < 64 ∧ b = symbol n := by
  have hall : ∀ b : UInt8, ∀ n ∈ value? b, n < 64 ∧ b = symbol n :=
    Text.forall_byte (by decide +kernel)
  exact hall b n h

theorem symbol_of_valueAt {offset : Nat} {b : UInt8} {n : Nat} (h : valueAt offset b = .ok n) :
    n < 64 ∧ b = symbol n := by
  rw [valueAt] at h
  cases hv : value? b with
  | none => simp [hv] at h
  | some m =>
    rw [hv] at h
    obtain rfl := Except.ok.inj h
    exact symbol_of_value? hv

/-- The last group consists of symbols and, from its third place on, of padding. -/
theorem of_lastSymbols {offset index : Nat} {group : Bytes} {numbers : List Nat} {padding : Nat}
    (h : lastSymbols offset index group = .ok (numbers, padding)) :
    group = numbers.map symbol ++ List.replicate padding pad ∧ (∀ n ∈ numbers, n < 64) ∧
      (0 < padding → 2 ≤ index + numbers.length) := by
  induction group generalizing index numbers with
  | nil =>
    rw [lastSymbols] at h
    obtain ⟨rfl, rfl⟩ := Prod.mk.inj (Except.ok.inj h)
    simp
  | cons b rest ih =>
    rw [lastSymbols] at h
    by_cases hb : (b == pad) = true
    · -- Behind the first padding there is nothing but padding.
      rw [if_pos hb] at h
      split at h
      · cases h
      · rename_i hindex
        split at h
        · rename_i hall
          obtain ⟨rfl, rfl⟩ := Prod.mk.inj (Except.ok.inj h)
          have hrest : rest = List.replicate rest.length pad := by
            simpa [List.eq_replicate_iff] using hall
          refine ⟨?_, by simp, by simp; omega⟩
          rw [beq_iff_eq.mp hb, List.replicate_succ, ← hrest]
          rfl
        · cases h
    · rw [if_neg hb] at h
      -- A symbol comes first, and the rest is read one place further on.
      obtain ⟨n, hn, h⟩ := exists_of_bind_ok h
      obtain ⟨⟨others, more⟩, hothers, h⟩ := exists_of_bind_ok h
      obtain ⟨rfl, rfl⟩ := Prod.mk.inj (Except.ok.inj h)
      obtain ⟨hlt, rfl⟩ := symbol_of_valueAt hn
      obtain ⟨hrest, hall, hplaces⟩ := ih hothers
      refine ⟨by simp [hrest], by simpa using ⟨hlt, hall⟩, fun hpos => ?_⟩
      have := hplaces hpos
      simp
      omega

/-! ### Bytes and numbers -/

/-- The three bytes of four numbers are parted into these numbers again. -/
theorem toNat_join {a b c d : Nat} (ha : a < 64) (hb : b < 64) (hc : c < 64) (hd : d < 64) :
    (UInt8.ofNat (a * 4 + b / 16)).toNat = a * 4 + b / 16 ∧
    (UInt8.ofNat (b % 16 * 16 + c / 4)).toNat = b % 16 * 16 + c / 4 ∧
    (UInt8.ofNat (c % 4 * 64 + d)).toNat = c % 4 * 64 + d :=
  ⟨Text.toNat_byte (by omega), Text.toNat_byte (by omega), Text.toNat_byte (by omega)⟩

/-- The symbols of the three bytes of four numbers are those of the numbers. -/
theorem encode_join {a b c d : Nat} (ha : a < 64) (hb : b < 64) (hc : c < 64) (hd : d < 64)
    (rest : Bytes) :
    encode (join a b c d ++ rest) = symbol a :: symbol b :: symbol c :: symbol d :: encode rest := by
  obtain ⟨hfirst, hsecond, hthird⟩ := toNat_join ha hb hc hd
  rw [join, List.cons_append, List.cons_append, List.cons_append, List.nil_append, encode, hfirst,
    hsecond, hthird, show (a * 4 + b / 16) / 4 = a by omega,
    show (a * 4 + b / 16) % 4 * 16 + (b % 16 * 16 + c / 4) / 16 = b by omega,
    show (b % 16 * 16 + c / 4) % 16 * 4 + (c % 4 * 64 + d) / 64 = c by omega,
    show (c % 4 * 64 + d) % 64 = d by omega]

/-- The symbols of the one byte of two numbers, of which the second has no bits left over. -/
theorem encode_take_one {a b : Nat} (ha : a < 64) (hb : b < 64) (hzero : b % 16 = 0) :
    encode ((join a b 0 0).take 1) = [symbol a, symbol b, pad, pad] := by
  obtain ⟨hfirst, -, -⟩ := toNat_join ha hb (Nat.zero_lt_succ 63) (Nat.zero_lt_succ 63)
  simp only [join, List.take_succ_cons, List.take_zero, encode, hfirst]
  rw [show (a * 4 + b / 16) / 4 = a by omega, show (a * 4 + b / 16) % 4 * 16 = b by omega]

/-- The symbols of the two bytes of three numbers, of which the third has no bits left over. -/
theorem encode_take_two {a b c : Nat} (ha : a < 64) (hb : b < 64) (hc : c < 64)
    (hzero : c % 4 = 0) :
    encode ((join a b c 0).take 2) = [symbol a, symbol b, symbol c, pad] := by
  obtain ⟨hfirst, hsecond, -⟩ := toNat_join ha hb hc (Nat.zero_lt_succ 63)
  simp only [join, List.take_succ_cons, List.take_zero, encode, hfirst, hsecond]
  rw [show (a * 4 + b / 16) / 4 = a by omega,
    show (a * 4 + b / 16) % 4 * 16 + (b % 16 * 16 + c / 4) / 16 = b by omega,
    show (b % 16 * 16 + c / 4) % 16 * 4 = c by omega]

/-- **A last group** that spells some bytes is the group of these bytes. -/
theorem encode_of_decodeLast {offset : Nat} {group bytes : Bytes} (hlength : group.length ≤ 4)
    (h : decodeLast offset group = .ok bytes) : encode bytes = group := by
  obtain ⟨⟨numbers, padding⟩, hsymbols, h⟩ := exists_of_bind_ok h
  obtain ⟨rfl, hlt, hplaces⟩ := of_lastSymbols hsymbols
  rw [List.length_append, List.length_map, List.length_replicate] at hlength
  dsimp only at h
  -- One case for each number of symbols, since each asks for its own padding.
  match numbers with
  | [] =>
    obtain rfl := Except.ok.inj h
    have hnone : padding = 0 := by
      by_contra hpos
      have := hplaces (by omega)
      simp at this
    simp [hnone, encode]
  | [_] => cases h
  | [a, b] =>
    simp only [List.forall_mem_cons] at hlt
    obtain ⟨ha, hb, -⟩ := hlt
    simp only [bne_iff_ne, ne_eq, ite_not] at h
    split_ifs at h with hpadding hzero
    obtain rfl := Except.ok.inj h
    rw [encode_take_one ha hb hzero, hpadding]
    rfl
  | [a, b, c] =>
    simp only [List.forall_mem_cons] at hlt
    obtain ⟨ha, hb, hc, -⟩ := hlt
    simp only [bne_iff_ne, ne_eq, ite_not] at h
    split_ifs at h with hpadding hzero
    obtain rfl := Except.ok.inj h
    rw [encode_take_two ha hb hc hzero, hpadding]
    rfl
  | a :: b :: c :: d :: more =>
    simp only [List.forall_mem_cons] at hlt
    obtain ⟨ha, hb, hc, hd, -⟩ := hlt
    obtain rfl : more = [] := by
      rw [← List.length_eq_zero_iff]
      simp only [List.length_cons] at hlength
      omega
    simp only [bne_iff_ne, ne_eq, ite_not] at h
    split_ifs at h with hpadding
    obtain rfl := Except.ok.inj h
    rw [← List.append_nil (join a b c d), encode_join ha hb hc hd, hpadding]
    rfl

/-- Groups that spell some bytes are the groups of these bytes. -/
theorem encode_of_decodeGroups {offset : Nat} {symbols bytes : Bytes}
    (h : decodeGroups offset symbols = .ok bytes) : encode bytes = symbols := by
  induction offset, symbols using decodeGroups.induct generalizing bytes with
  | case1 offset a b c d e rest ih =>
    -- Something follows, so these are four symbols without padding.
    rw [decodeGroups] at h
    obtain ⟨first, hfirst, h⟩ := exists_of_bind_ok h
    obtain ⟨second, hsecond, h⟩ := exists_of_bind_ok h
    obtain ⟨third, hthird, h⟩ := exists_of_bind_ok h
    obtain ⟨fourth, hfourth, h⟩ := exists_of_bind_ok h
    obtain ⟨others, hothers, h⟩ := exists_of_bind_ok h
    obtain rfl := Except.ok.inj h
    obtain ⟨ha, rfl⟩ := symbol_of_valueAt hfirst
    obtain ⟨hb, rfl⟩ := symbol_of_valueAt hsecond
    obtain ⟨hc, rfl⟩ := symbol_of_valueAt hthird
    obtain ⟨hd, rfl⟩ := symbol_of_valueAt hfourth
    rw [encode_join ha hb hc hd, ih hothers]
  | case2 offset group hshort =>
    -- What nothing follows is the last group, which may be padded.
    have hlength : group.length ≤ 4 := by
      rcases group with _ | ⟨a, _ | ⟨b, _ | ⟨c, _ | ⟨d, _ | ⟨e, rest⟩⟩⟩⟩⟩
      case cons.cons.cons.cons.cons => exact absurd rfl (hshort a b c d e rest)
      all_goals simp
    rw [decodeGroups] at h
    · exact encode_of_decodeLast hlength h
    · exact hshort

/-- **Symbols** that spell some bytes are the symbols of these bytes. -/
theorem encode_of_decode {symbols bytes : Bytes} (h : decode symbols = .ok bytes) :
    encode bytes = symbols := by
  rw [decode] at h
  split at h
  · rename_i hnone
    obtain rfl := Except.ok.inj h
    rw [List.getLast?_eq_none_iff.mp hnone, encode]
  · split at h
    · cases h
    · exact encode_of_decodeGroups h

/-- Bits that are left over are not read as if they were zero. -/
example : decode [symbol 0, symbol 1, pad, pad] = .error (.badLastSymbol 1 (symbol 1)) := rfl

/-! ### The format -/

/-- The sixty-four letters, by the digits that they stand for. -/
def alphabet : String := "ABCDEFGHIJKLMNOPQRSTUVWXYZabcdefghijklmnopqrstuvwxyz0123456789+/"

/-- The letter of a digit. -/
def letter (n : Nat) : Char := alphabet.toList.getD n '='

/-- Digits in base 64 are the numeral of some bytes if they are the digits of the number whose
    digits in base 256 are the bytes.  The numeral fills up groups of four places, as the bytes fill
    up groups of three; each byte that a group lacks leaves a place to the padding, and the bits of
    the other places are zero. -/
structure IsNumeralOf (digits : List Nat) (padding : Nat) (bytes : Bytes) : Prop where
  digits_lt : ∀ n ∈ digits, n < 64
  padding_lt : padding < 3
  groups : 3 * (digits.length + padding) = 4 * (bytes.length + padding)
  value : Nat.ofDigits 64 digits.reverse =
    Nat.ofDigits 256 (bytes.map UInt8.toNat).reverse * 4 ^ padding

/-- A text of some bytes: the letters of their numeral, and padding. -/
def IsTextOf (cs : List Char) (bytes : Bytes) : Prop :=
  ∃ digits padding, IsNumeralOf digits padding bytes ∧
    cs = digits.map letter ++ List.replicate padding '='

/-- A symbol is the letter of its digit. -/
theorem letter_eq : ∀ n < 64, letter n = Char.ofNat (symbol n).toNat := by decide +kernel

/-- What the places of the groups hold, in bits: six for each digit and two for each place of the
    padding, eight for each byte. -/
theorem IsNumeralOf.pow {digits : List Nat} {padding : Nat} {bytes : Bytes}
    (h : IsNumeralOf digits padding bytes) :
    64 ^ digits.length = 256 ^ bytes.length * 4 ^ padding := by
  have hgroups := h.groups
  rw [show 64 = 2 ^ 6 from rfl, show 256 = 2 ^ 8 from rfl, show 4 = 2 ^ 2 from rfl, ← pow_mul,
    ← pow_mul, ← pow_mul, ← pow_add]
  congr 1
  omega

/-- Three bytes in front are four digits in front. -/
theorem IsNumeralOf.group {digits : List Nat} {padding : Nat} {rest : Bytes}
    (h : IsNumeralOf digits padding rest) (a b c : UInt8) :
    IsNumeralOf ([a.toNat / 4, a.toNat % 4 * 16 + b.toNat / 16, b.toNat % 16 * 4 + c.toNat / 64,
      c.toNat % 64] ++ digits) padding (a :: b :: c :: rest) := by
  have ha := a.toNat_lt
  have hb := b.toNat_lt
  have hc := c.toNat_lt
  -- Four digits to the base 64 and three to the base 256 spell the same 24 bits.
  have hfront : Nat.ofDigits 64 [a.toNat / 4, a.toNat % 4 * 16 + b.toNat / 16,
      b.toNat % 16 * 4 + c.toNat / 64, c.toNat % 64].reverse
      = Nat.ofDigits 256 [a.toNat, b.toNat, c.toNat].reverse := by
    simp [Nat.ofDigits_cons]
    omega
  refine ⟨?_, h.padding_lt, ?_, ?_⟩
  · simp only [List.cons_append, List.nil_append, List.mem_cons, forall_eq_or_imp]
    exact ⟨by omega, by omega, by omega, by omega, h.digits_lt⟩
  · have hgroups := h.groups
    simp only [List.length_append, List.length_cons, List.length_nil]
    omega
  · rw [List.reverse_append, Nat.ofDigits_append, List.length_reverse, h.value, h.pow, hfront,
      show (a :: b :: c :: rest) = [a, b, c] ++ rest from rfl, List.map_append,
      List.reverse_append, Nat.ofDigits_append, List.length_reverse, List.length_map]
    simp only [List.map_cons, List.map_nil]
    ring

/-- **All bytes have a numeral**, and its symbols are those that they are written in. -/
theorem exists_encode_eq (bytes : Bytes) :
    ∃ digits padding, IsNumeralOf digits padding bytes ∧
      encode bytes = digits.map symbol ++ List.replicate padding pad := by
  -- A last group that is not full ends in zero bits, and padding makes it four symbols.
  induction bytes using encode.induct with
  | case1 => exact ⟨[], 0, ⟨by simp, by simp, rfl, rfl⟩, rfl⟩
  | case2 a =>
    have ha := a.toNat_lt
    refine ⟨[a.toNat / 4, a.toNat % 4 * 16], 2, ⟨?_, by simp, rfl, ?_⟩, rfl⟩
    · simp only [List.forall_mem_cons]
      exact ⟨by omega, by omega, by simp⟩
    · simp [Nat.ofDigits_cons]
      omega
  | case3 a b =>
    have ha := a.toNat_lt
    have hb := b.toNat_lt
    refine ⟨[a.toNat / 4, a.toNat % 4 * 16 + b.toNat / 16, b.toNat % 16 * 4], 1,
      ⟨?_, by simp, rfl, ?_⟩, rfl⟩
    · simp only [List.forall_mem_cons]
      exact ⟨by omega, by omega, by omega, by simp⟩
    · simp [Nat.ofDigits_cons]
      omega
  | case4 a b c rest ih =>
    obtain ⟨digits, padding, hnumeral, hencode⟩ := ih
    exact ⟨_, padding, hnumeral.group a b c, by rw [encode, hencode]; rfl⟩

/-- **Bytes have one numeral.**  Their number says how much padding there is, and digits of one
    length are determined by what they are the digits of. -/
theorem IsNumeralOf.unique {digits digits' : List Nat} {padding padding' : Nat} {bytes : Bytes}
    (h : IsNumeralOf digits padding bytes) (h' : IsNumeralOf digits' padding' bytes) :
    digits = digits' ∧ padding = padding' := by
  have hgroups := h.groups
  have hgroups' := h'.groups
  have hlt := h.padding_lt
  have hlt' := h'.padding_lt
  obtain rfl : padding = padding' := by omega
  have hvalue : Nat.ofDigits 64 digits.reverse = Nat.ofDigits 64 digits'.reverse := by
    rw [h.value, h'.value]
  have hreverse := Nat.ofDigits_inj_of_len_eq (by simp) (by simp; omega)
    (fun n hn => h.digits_lt n (List.mem_reverse.mp hn))
    (fun n hn => h'.digits_lt n (List.mem_reverse.mp hn)) hvalue
  exact ⟨List.reverse_inj.mp hreverse, rfl⟩

/-- The letters of a numeral and its padding are the characters of its symbols. -/
theorem IsNumeralOf.map_letter {digits : List Nat} {padding : Nat} {bytes : Bytes}
    (h : IsNumeralOf digits padding bytes) :
    digits.map letter ++ List.replicate padding '=' =
      (digits.map symbol ++ List.replicate padding pad).map fun b => Char.ofNat b.toNat := by
  rw [List.map_append, List.map_map, List.map_replicate]
  congr 1
  exact List.map_congr_left fun n hn => letter_eq n (h.digits_lt n hn)

/-- **The text of some bytes** is the one that they are written as. -/
theorem isTextOf_iff {cs : List Char} {bytes : Bytes} :
    IsTextOf cs bytes ↔ cs = (text bytes).toList := by
  obtain ⟨digits, padding, hnumeral, hencode⟩ := exists_encode_eq bytes
  have htext : (text bytes).toList = digits.map letter ++ List.replicate padding '=' := by
    rw [text, String.toList_ofList, hencode, hnumeral.map_letter]
  constructor
  · rintro ⟨digits', padding', hnumeral', rfl⟩
    obtain ⟨rfl, rfl⟩ := hnumeral'.unique hnumeral
    exact htext.symm
  · rintro rfl
    exact ⟨digits, padding, hnumeral, htext⟩

end Base64

/-! ### Buffers -/

namespace Buffer

/-- A text that is read as some bytes is the text of these bytes. -/
theorem encode_of_decode {text : String} {bytes : Bytes} (h : decode text = .ok bytes) :
    encode bytes = text := by
  rw [decode] at h
  split at h
  · rename_i hdecode
    rw [Except.ok.inj h] at hdecode
    have hutf8 : Text.utf8 (encode bytes) = Text.utf8 text := by
      rw [encode, Base64.utf8_text, Base64.encode_of_decode hdecode]
    have hread := Text.ofUtf8_utf8 (encode bytes)
    rw [hutf8, Text.ofUtf8_utf8] at hread
    exact (Except.ok.inj hread).symm
  · cases h

/-- **Buffers and their texts.**  Each buffer is read back from the text that it is written as; a
    text that is read as a buffer is the one that the buffer is written as, so that each buffer has
    one text; and this is the text of the format, the numeral of the bytes in the sixty-four
    letters, padded to full groups. -/
theorem decode_canonical :
    (∀ bytes, decode (encode bytes) = .ok bytes) ∧
    (∀ text bytes, decode text = .ok bytes → encode bytes = text) ∧
    (∀ bytes, ∃! text, decode text = .ok bytes) ∧
    ∀ text bytes, decode text = .ok bytes ↔ Base64.IsTextOf text.toList bytes := by
  refine ⟨decode_encode, fun text bytes => encode_of_decode, fun bytes => ?_, fun text bytes => ?_⟩
  · exact ⟨encode bytes, decode_encode bytes, fun text h => (encode_of_decode h).symm⟩
  · rw [Base64.isTextOf_iff]
    constructor
    · intro h
      rw [← encode_of_decode h, encode]
    · intro h
      rw [String.toList_inj.mp h]
      exact decode_encode bytes

end Buffer

end DocRelay
