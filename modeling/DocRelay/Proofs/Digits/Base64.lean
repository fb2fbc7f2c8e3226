import DocRelay.Message.Buffer
import DocRelay.Proofs.Text.Utf8

namespace DocRelay

/-!
# Base64 and back

Whatever bytes are spelled in symbols, the symbols spell these bytes, also when they travel as a
text.

* `Base64.join_split` — three bytes as four numbers, and back;
* `Base64.decodeLast_one`, `decodeLast_two`, `decodeLast_three` — the last group;
* `Base64.decode_encode` — the symbols spell the bytes;
* `Buffer.decode_encode` — so does their text.
-/

namespace Base64

/-! ### Symbols -/

/-- A symbol is no padding. -/
theorem symbol_ne_pad : ∀ n < 64, (symbol n == pad) = false := by decide

/-- A symbol is an ASCII character. -/
theorem symbol_lt : ∀ n < 64, symbol n < 0x80 := by decide

/-- The number of a symbol, wherever it stands. -/
theorem valueAt_symbol (offset : Nat) {n : Nat} (h : n < 64) :
    valueAt offset (symbol n) = .ok n := by
  rw [valueAt, value?_symbol n h]

/-- A symbol of the last group is the first of its numbers. -/
theorem lastSymbols_symbol (offset index : Nat) {n : Nat} (h : n < 64) (rest : Bytes) :
    lastSymbols offset index (symbol n :: rest) =
      (lastSymbols offset (index + 1) rest).map fun (numbers, padding) =>
        (n :: numbers, padding) := by
  rw [lastSymbols, if_neg (by simp [symbol_ne_pad n h]), valueAt_symbol _ h]
  cases lastSymbols offset (index + 1) rest <;> rfl

/-! ### Groups -/

/-- The first byte of a group is in its first two numbers. -/
theorem join_first (a : UInt8) (x : Nat) (hx : x < 16) :
    UInt8.ofNat (a.toNat / 4 * 4 + (a.toNat % 4 * 16 + x) / 16) = a := by
  have ha : a.toNat / 4 * 4 + (a.toNat % 4 * 16 + x) / 16 = a.toNat := by omega
  rw [ha, UInt8.ofNat_toNat]

/-- The second byte of a group is in its second and third number. -/
theorem join_second (a : Nat) (b : UInt8) (x : Nat) (hx : x < 4) :
    UInt8.ofNat ((a % 4 * 16 + b.toNat / 16) % 16 * 16 + (b.toNat % 16 * 4 + x) / 4) = b := by
  have hlt := b.toNat_lt
  have hb : (a % 4 * 16 + b.toNat / 16) % 16 * 16 + (b.toNat % 16 * 4 + x) / 4 = b.toNat := by
    omega
  rw [hb, UInt8.ofNat_toNat]

/-- **Three bytes** are what their four numbers spell. -/
theorem join_split (a b c : UInt8) :
    join (a.toNat / 4) (a.toNat % 4 * 16 + b.toNat / 16) (b.toNat % 16 * 4 + c.toNat / 64)
      (c.toNat % 64) = [a, b, c] := by
  have hb := b.toNat_lt
  have hc := c.toNat_lt
  have hthird : (b.toNat % 16 * 4 + c.toNat / 64) % 4 * 64 + c.toNat % 64 = c.toNat := by omega
  rw [join, join_first a _ (by omega), join_second _ b _ (by omega), hthird, UInt8.ofNat_toNat]

/-- A last group of one byte. -/
theorem decodeLast_one (offset : Nat) (a : UInt8) : decodeLast offset (encode [a]) = .ok [a] := by
  have ha := a.toNat_lt
  have hsymbols : lastSymbols offset 0 (encode [a])
      = .ok ([a.toNat / 4, a.toNat % 4 * 16], 2) := by
    rw [encode, lastSymbols_symbol _ _ (by omega), lastSymbols_symbol _ _ (by omega)]
    rfl
  have hbyte := join_first a 0 (by omega)
  rw [decodeLast, hsymbols]
  simp only [bind, Except.bind, bne_self_eq_false, Nat.mul_mod_left, Bool.false_eq_true, if_false]
  exact congrArg (fun b => Except.ok [b]) hbyte

/-- A last group of two bytes. -/
theorem decodeLast_two (offset : Nat) (a b : UInt8) :
    decodeLast offset (encode [a, b]) = .ok [a, b] := by
  have ha := a.toNat_lt
  have hb := b.toNat_lt
  have hsymbols : lastSymbols offset 0 (encode [a, b])
      = .ok ([a.toNat / 4, a.toNat % 4 * 16 + b.toNat / 16, b.toNat % 16 * 4], 1) := by
    rw [encode, lastSymbols_symbol _ _ (by omega), lastSymbols_symbol _ _ (by omega),
      lastSymbols_symbol _ _ (by omega)]
    rfl
  have hfirst := join_first a (b.toNat / 16) (by omega)
  have hsecond := join_second a.toNat b 0 (by omega)
  rw [decodeLast, hsymbols]
  simp only [bind, Except.bind, bne_self_eq_false, Nat.mul_mod_left, Bool.false_eq_true, if_false]
  rw [Nat.add_zero] at hsecond
  rw [join, hfirst, hsecond]
  rfl

/-- A last group of three bytes. -/
theorem decodeLast_three (offset : Nat) (a b c : UInt8) :
    decodeLast offset (encode [a, b, c]) = .ok [a, b, c] := by
  have ha := a.toNat_lt
  have hb := b.toNat_lt
  have hc := c.toNat_lt
  have hsymbols : lastSymbols offset 0 (encode [a, b, c])
      = .ok ([a.toNat / 4, a.toNat % 4 * 16 + b.toNat / 16, b.toNat % 16 * 4 + c.toNat / 64,
          c.toNat % 64], 0) := by
    rw [encode, lastSymbols_symbol _ _ (by omega), lastSymbols_symbol _ _ (by omega),
      lastSymbols_symbol _ _ (by omega), lastSymbols_symbol _ _ (by omega)]
    rfl
  rw [decodeLast, hsymbols]
  exact congrArg Except.ok (join_split a b c)

/-! ### All symbols -/

/-- What the symbols of some bytes begin with, if there are any. -/
theorem exists_encode_cons (a : UInt8) (rest : Bytes) :
    ∃ first others, encode (a :: rest) = first :: others := by
  match rest with
  | [] => exact ⟨_, _, rfl⟩
  | [_] => exact ⟨_, _, rfl⟩
  | _ :: _ :: _ => exact ⟨_, _, rfl⟩

/-- The groups of some bytes spell the bytes. -/
theorem decodeGroups_encode (offset : Nat) (bytes : Bytes) :
    decodeGroups offset (encode bytes) = .ok bytes := by
  induction bytes using encode.induct generalizing offset with
  | case1 => rfl
  | case2 a => exact decodeLast_one offset a
  | case3 a b => exact decodeLast_two offset a b
  | case4 a b c rest ih =>
    -- A group that nothing follows is read as the last one, although it is full.
    cases rest with
    | nil => exact decodeLast_three offset a b c
    | cons d rest =>
      have ha := a.toNat_lt
      have hb := b.toNat_lt
      have hc := c.toNat_lt
      obtain ⟨first, others, hencode⟩ := exists_encode_cons d rest
      have hothers := ih (offset + 4)
      rw [encode, hencode, decodeGroups, ← hencode, hothers, valueAt_symbol _ (by omega),
        valueAt_symbol _ (by omega), valueAt_symbol _ (by omega), valueAt_symbol _ (by omega)]
      change Except.ok (join _ _ _ _ ++ d :: rest) = _
      rw [join_split]
      rfl

/-- The symbols come in groups of four. -/
theorem length_encode_mod (bytes : Bytes) : (encode bytes).length % 4 = 0 := by
  induction bytes using encode.induct with
  | case1 => rfl
  | case2 a => simp [encode]
  | case3 a b => simp [encode]
  | case4 a b c rest ih =>
    simp only [encode, List.length_cons]
    omega

/-- **The symbols of some bytes** spell these bytes. -/
@[simp] theorem decode_encode (bytes : Bytes) : decode (encode bytes) = .ok bytes := by
  have hlength : ((encode bytes).length % 4 == 1) = false := by simp [length_encode_mod]
  rw [decode]
  split
  · rename_i hnone
    rw [List.getLast?_eq_none_iff] at hnone
    have hgroups := decodeGroups_encode 0 bytes
    rw [hnone] at hgroups
    exact hgroups
  · rw [hlength, Bool.false_and, Bool.false_and, if_neg Bool.false_ne_true]
    exact decodeGroups_encode 0 bytes

/-- Symbols and padding are ASCII characters. -/
theorem lt_of_mem_encode {bytes : Bytes} {s : UInt8} (h : s ∈ encode bytes) : s < 0x80 := by
  have hpad : pad < 0x80 := by decide
  -- Only a group that is not full has padding.
  induction bytes using encode.induct with
  | case1 => cases h
  | case2 a =>
    have ha := a.toNat_lt
    simp only [encode, List.mem_cons, List.not_mem_nil, or_false] at h
    rcases h with rfl | rfl | rfl | rfl
    · exact symbol_lt _ (by omega)
    · exact symbol_lt _ (by omega)
    · exact hpad
    · exact hpad
  | case3 a b =>
    have ha := a.toNat_lt
    have hb := b.toNat_lt
    simp only [encode, List.mem_cons, List.not_mem_nil, or_false] at h
    rcases h with rfl | rfl | rfl | rfl
    · exact symbol_lt _ (by omega)
    · exact symbol_lt _ (by omega)
    · exact symbol_lt _ (by omega)
    · exact hpad
  | case4 a b c rest ih =>
    have ha := a.toNat_lt
    have hb := b.toNat_lt
    have hc := c.toNat_lt
    simp only [encode, List.mem_cons] at h
    rcases h with rfl | rfl | rfl | rfl | h
    · exact symbol_lt _ (by omega)
    · exact symbol_lt _ (by omega)
    · exact symbol_lt _ (by omega)
    · exact symbol_lt _ (by omega)
    · exact ih h

/-- The bytes of the text of some bytes are their symbols. -/
theorem utf8_text (bytes : Bytes) : Text.utf8 (text bytes) = encode bytes := by
  rw [Text.utf8, text, String.toList_ofList]
  exact Text.utf8Chars_ascii fun s => lt_of_mem_encode

end Base64

/-- **A buffer is read back** from its text. -/
@[simp] theorem Buffer.decode_encode (bytes : Bytes) :
    Buffer.decode (Buffer.encode bytes) = .ok bytes := by
  rw [Buffer.decode, Buffer.encode, Base64.utf8_text, Base64.decode_encode]

end DocRelay
