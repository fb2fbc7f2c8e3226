import DocRelay.Text.Utf8
import Mathlib.Tactic.SplitIfs

namespace DocRelay.Text

/-!
# Texts as bytes and back

Every text is read back from its bytes, and a byte that stands for a control character occurs only
where the character does.

* `toNat_byte`, `forall_byte` — bytes and their numbers;
* `isContinuation_ofNat`, `payload_ofNat`, `isSecond_ofNat` — the bytes of long characters;
* `HeadChar`, `headChar_of_utf8Head` — the ways in which a character is read;
* `utf8Head_encode`, `exists_of_utf8Head_eq_char` — the bytes of a character begin with the
  character, and nothing else does;
* `ofUtf8_utf8`, `ofUtf8_eq_ok_iff` — a text is read back, and is read from nothing else;
* `ofUtf8Lossy_utf8` — so it is where faults are replaced;
* `utf8Chars_ascii`, `utf8Chars_eq_append_iff` — ASCII bytes, and texts that end in one;
* `le_of_mem_utf8` — the bytes of a text without controls are no controls.
-/

/-! ### Bytes of long characters -/

/-- The number of a byte. -/
theorem toNat_byte {n : Nat} (h : n < 256) : (UInt8.ofNat n).toNat = n :=
  UInt8.toNat_ofNat_of_lt' h

/-- What holds of the first 256 numbers as bytes holds of all bytes. -/
theorem forall_byte {p : UInt8 → Prop} (h : ∀ n < 256, p (UInt8.ofNat n)) (b : UInt8) : p b := by
  have hb := h b.toNat b.toNat_lt
  rwa [UInt8.ofNat_toNat] at hb

/-- A byte of six payload bits continues a character. -/
theorem isContinuation_ofNat {n : Nat} (h : n < 64) :
    isContinuation (UInt8.ofNat (n + 0x80)) = true := by
  have hb : (UInt8.ofNat (n + 0x80)).toNat = n + 0x80 := toNat_byte (by omega)
  simp only [isContinuation, Bool.and_eq_true, decide_eq_true_eq, UInt8.le_iff_toNat_le, hb]
  exact ⟨by simp, by simp; omega⟩

/-- The payload of such a byte. -/
theorem payload_ofNat {n : Nat} (h : n < 64) : payload (UInt8.ofNat (n + 0x80)) = n := by
  rw [payload, toNat_byte (by omega)]
  omega

/-- Which second bytes may follow a first byte, in numbers. -/
theorem isSecond_ofNat {first second : Nat} (hf : first < 256) (hs : second < 256) :
    isSecond (UInt8.ofNat first) (UInt8.ofNat second) =
      if first = 0xE0 then decide (0xA0 ≤ second ∧ second ≤ 0xBF)
      else if first = 0xED then decide (0x80 ≤ second ∧ second ≤ 0x9F)
      else if first = 0xF0 then decide (0x90 ≤ second ∧ second ≤ 0xBF)
      else if first = 0xF4 then decide (0x80 ≤ second ∧ second ≤ 0x8F)
      else decide (0x80 ≤ second ∧ second ≤ 0xBF) := by
  simp [isSecond, isContinuation, ← UInt8.toNat_inj, UInt8.le_iff_toNat_le, toNat_byte hf,
    toNat_byte hs]

/-! ### Characters -/

/-- The numbers of characters. -/
theorem toNat_isValid (c : Char) :
    c.toNat < 0xD800 ∨ 0xDFFF < c.toNat ∧ c.toNat < 0x110000 := c.valid

/-- The number of the character of a number. -/
theorem toNat_ofNat {n : Nat} (h : n.isValidChar) : (Char.ofNat n).toNat = n := by
  rw [Char.ofNat, dif_pos h]
  rfl

/-- **The bytes of a character** begin with the character, whatever follows them. -/
theorem utf8Head_encode (c : Char) (rest : Bytes) :
    ∃ first others, String.utf8EncodeChar c = first :: others ∧
      utf8Head first (others ++ rest) = .char c (others.length + 1) := by
  have hvalid := toNat_isValid c
  have hback : ∀ n, n = c.toNat → Char.ofNat n = c := by
    rintro n rfl
    exact Char.ofNat_toNat c
  rw [String.utf8EncodeChar, show c.val.toNat = c.toNat from rfl]
  generalize c.toNat = n at *
  -- One case for each length, by the number of the character.
  by_cases h1 : n ≤ 0x7F
  · rw [if_pos h1]
    refine ⟨_, [], rfl, ?_⟩
    rw [utf8Head.eq_def]
    simp only [toNat_byte (show n < 256 by omega)]
    rw [if_pos (by omega), hback n rfl]
    rfl
  rw [if_neg h1]
  by_cases h2 : n ≤ 0x7FF
  · rw [if_pos h2]
    refine ⟨_, [_], rfl, ?_⟩
    rw [utf8Head.eq_def]
    simp only [toNat_byte (show n / 64 % 32 + 192 < 256 by omega), List.cons_append]
    rw [if_neg (by omega), if_neg (by simp; omega), if_pos (by omega),
      isContinuation_ofNat (by omega), if_pos rfl, payload_ofNat (by omega), hback _ (by omega)]
    rfl
  rw [if_neg h2]
  by_cases h3 : n ≤ 0xFFFF
  · rw [if_pos h3]
    refine ⟨_, [_, _], rfl, ?_⟩
    rw [utf8Head.eq_def]
    have hsecond : isSecond (UInt8.ofNat (n / 4096 % 16 + 224)) (UInt8.ofNat (n / 64 % 64 + 128))
        = true := by
      rw [isSecond_ofNat (by omega) (by omega)]
      split_ifs <;> simp <;> omega
    simp only [toNat_byte (show n / 4096 % 16 + 224 < 256 by omega), List.cons_append]
    rw [if_neg (by omega), if_neg (by simp; omega), if_neg (by omega), if_pos (by omega), hsecond,
      if_pos rfl, isContinuation_ofNat (by omega), if_pos rfl, payload_ofNat (by omega),
      payload_ofNat (by omega), hback _ (by omega)]
    rfl
  · rw [if_neg h3]
    refine ⟨_, [_, _, _], rfl, ?_⟩
    rw [utf8Head.eq_def]
    have hsecond : isSecond (UInt8.ofNat (n / 262144 % 8 + 240))
        (UInt8.ofNat (n / 4096 % 64 + 128)) = true := by
      rw [isSecond_ofNat (by omega) (by omega)]
      split_ifs <;> simp <;> omega
    simp only [toNat_byte (show n / 262144 % 8 + 240 < 256 by omega), List.cons_append]
    rw [if_neg (by omega), if_neg (by simp; omega), if_neg (by omega), if_neg (by omega), hsecond,
      if_pos rfl, isContinuation_ofNat (by omega), if_pos rfl, isContinuation_ofNat (by omega),
      if_pos rfl, payload_ofNat (by omega), payload_ofNat (by omega), payload_ofNat (by omega),
      hback _ (by omega)]
    rfl

/-! ### Characters that are read -/

/-- A continuation byte is its payload above 0x80. -/
theorem toNat_of_isContinuation {b : UInt8} (h : isContinuation b = true) :
    b.toNat = payload b + 0x80 ∧ payload b < 64 := by
  simp only [isContinuation, Bool.and_eq_true, decide_eq_true_eq, UInt8.le_iff_toNat_le] at h
  have hlow : 0x80 ≤ b.toNat := h.1
  have hhigh : b.toNat ≤ 0xBF := h.2
  rw [payload]
  omega

/-- A second byte continues a character, and what the first byte forbids it does not do. -/
theorem toNat_of_isSecond {first second : UInt8} (h : isSecond first second = true) :
    second.toNat = payload second + 0x80 ∧ payload second < 64 ∧
      (first.toNat = 0xE0 → 0x20 ≤ payload second) ∧
      (first.toNat = 0xED → payload second < 0x20) ∧
      (first.toNat = 0xF0 → 0x10 ≤ payload second) ∧
      (first.toNat = 0xF4 → payload second < 0x10) := by
  have hsecond := isSecond_ofNat first.toNat_lt second.toNat_lt
  rw [UInt8.ofNat_toNat, UInt8.ofNat_toNat, h] at hsecond
  rw [payload]
  split_ifs at hsecond <;> have hrange := of_decide_eq_true hsecond.symm <;> omega

/-- How a character is read: from one byte up to four, of which the first tells how many there are,
    and the second may not be any continuation. -/
inductive HeadChar (first : UInt8) : Bytes → Char → Nat → Prop where
  | one (rest : Bytes) (ascii : first.toNat < 0x80) :
    HeadChar first rest (Char.ofNat first.toNat) 1
  | two {second : UInt8} (rest : Bytes) (low : 0xC2 ≤ first.toNat) (high : first.toNat < 0xE0)
    (continues : isContinuation second = true) :
    HeadChar first (second :: rest) (Char.ofNat (first.toNat % 32 * 64 + payload second)) 2
  | three {second third : UInt8} (rest : Bytes) (low : 0xE0 ≤ first.toNat)
    (high : first.toNat < 0xF0) (follows : isSecond first second = true)
    (continues : isContinuation third = true) :
    HeadChar first (second :: third :: rest)
      (Char.ofNat ((first.toNat % 16 * 64 + payload second) * 64 + payload third)) 3
  | four {second third fourth : UInt8} (rest : Bytes) (low : 0xF0 ≤ first.toNat)
    (high : first.toNat ≤ 0xF4) (follows : isSecond first second = true)
    (continues : isContinuation third = true) (ends : isContinuation fourth = true) :
    HeadChar first (second :: third :: fourth :: rest)
      (Char.ofNat (((first.toNat % 8 * 64 + payload second) * 64 + payload third) * 64
        + payload fourth)) 4

/-- **Inversion.** A character is read in one of these ways. -/
theorem headChar_of_utf8Head {first : UInt8} {rest : Bytes} {c : Char} {count : Nat}
    (h : utf8Head first rest = .char c count) : HeadChar first rest c count := by
  rw [utf8Head.eq_def] at h
  dsimp only at h
  -- The first byte tells how many bytes follow, and each of them has to go on with the character.
  by_cases hascii : first.toNat < 0x80
  · rw [if_pos hascii] at h
    cases h
    exact .one rest hascii
  rw [if_neg hascii] at h
  by_cases hbroken : (decide (first.toNat < 0xC2) || decide (0xF4 < first.toNat)) = true
  · rw [if_pos hbroken] at h
    cases h
  rw [if_neg hbroken] at h
  simp only [Bool.or_eq_true, decide_eq_true_eq, not_or, Nat.not_lt] at hbroken
  obtain ⟨hlow, hhigh⟩ := hbroken
  by_cases htwo : first.toNat < 0xE0
  · rw [if_pos htwo] at h
    cases rest with
    | nil => cases h
    | cons second rest =>
      dsimp only at h
      split_ifs at h with hsecond
      cases h
      exact .two rest hlow htwo hsecond
  rw [if_neg htwo] at h
  by_cases hthree : first.toNat < 0xF0
  · rw [if_pos hthree] at h
    cases rest with
    | nil => cases h
    | cons second rest =>
      dsimp only at h
      split_ifs at h with hsecond
      cases rest with
      | nil => cases h
      | cons third rest =>
        dsimp only at h
        split_ifs at h with hthird
        cases h
        exact .three rest (Nat.not_lt.mp htwo) hthree hsecond hthird
  · rw [if_neg hthree] at h
    cases rest with
    | nil => cases h
    | cons second rest =>
      dsimp only at h
      split_ifs at h with hsecond
      cases rest with
      | nil => cases h
      | cons third rest =>
        dsimp only at h
        split_ifs at h with hthird
        cases rest with
        | nil => cases h
        | cons fourth rest =>
          dsimp only at h
          split_ifs at h with hfourth
          cases h
          exact .four rest (Nat.not_lt.mp hthree) hhigh hsecond hthird hfourth

/-- **What is read as a character** are the bytes of the character. -/
theorem exists_of_utf8Head_eq_char {first : UInt8} {rest : Bytes} {c : Char} {count : Nat}
    (h : utf8Head first rest = .char c count) :
    ∃ others tail, rest = others ++ tail ∧ count = others.length + 1 ∧
      String.utf8EncodeChar c = first :: others := by
  have hbyte : ∀ (b : UInt8) (n : Nat), n = b.toNat → UInt8.ofNat n = b := by
    rintro b n rfl
    exact UInt8.ofNat_toNat
  cases headChar_of_utf8Head h with
  | one rest hascii =>
    have hc : (Char.ofNat first.toNat).toNat = first.toNat := toNat_ofNat (.inl (by omega))
    refine ⟨[], rest, rfl, rfl, ?_⟩
    rw [utf8EncodeChar_of_ascii (by rw [hc]; exact hascii), hc, hbyte first _ rfl]
  | @two second rest hlow hhigh hsecond =>
    obtain ⟨hvalue, hsmall⟩ := toNat_of_isContinuation hsecond
    have hc : (Char.ofNat (first.toNat % 32 * 64 + payload second)).val.toNat
        = first.toNat % 32 * 64 + payload second := toNat_ofNat (.inl (by omega))
    refine ⟨[second], rest, rfl, rfl, ?_⟩
    rw [String.utf8EncodeChar, hc, if_neg (by omega), if_pos (by omega),
      hbyte first _ (by omega), hbyte second _ (by omega)]
  | @three second third rest hlow hhigh hsecond hthird =>
    obtain ⟨hvalue, hsmall, he0, hed, -⟩ := toNat_of_isSecond hsecond
    obtain ⟨hvalue', hsmall'⟩ := toNat_of_isContinuation hthird
    generalize hm : (first.toNat % 16 * 64 + payload second) * 64 + payload third = m
    have hc : (Char.ofNat m).val.toNat = m :=
      toNat_ofNat (by simp only [Nat.isValidChar]; omega)
    refine ⟨[second, third], rest, rfl, rfl, ?_⟩
    rw [String.utf8EncodeChar, hc, if_neg (by omega), if_neg (by omega), if_pos (by omega),
      hbyte first _ (by omega), hbyte second _ (by omega), hbyte third _ (by omega)]
  | @four second third fourth rest hlow hhigh hsecond hthird hfourth =>
    obtain ⟨hvalue, hsmall, -, -, hf0, hf4⟩ := toNat_of_isSecond hsecond
    obtain ⟨hvalue', hsmall'⟩ := toNat_of_isContinuation hthird
    obtain ⟨hvalue'', hsmall''⟩ := toNat_of_isContinuation hfourth
    generalize hm : ((first.toNat % 8 * 64 + payload second) * 64 + payload third) * 64
      + payload fourth = m
    have hc : (Char.ofNat m).val.toNat = m :=
      toNat_ofNat (by simp only [Nat.isValidChar]; omega)
    refine ⟨[second, third, fourth], rest, rfl, rfl, ?_⟩
    rw [String.utf8EncodeChar, hc, if_neg (by omega), if_neg (by omega), if_neg (by omega),
      hbyte first _ (by omega), hbyte second _ (by omega), hbyte third _ (by omega),
      hbyte fourth _ (by omega)]

/-! ### Texts -/

/-- The bytes of a character take the reading past themselves. -/
theorem ofUtf8From_skip (index : Nat) (others rest : Bytes) :
    ofUtf8From index others.length (others ++ rest) =
      ofUtf8From (index + others.length) 0 rest := by
  induction others generalizing index with
  | nil => rfl
  | cons b others ih =>
    rw [List.length_cons, List.cons_append, ofUtf8From, ih]
    congr 1
    omega

/-- The characters of a text are read back from its bytes. -/
theorem ofUtf8From_utf8Chars (index : Nat) (cs : List Char) :
    ofUtf8From index 0 (utf8Chars cs) = .ok cs := by
  induction cs generalizing index with
  | nil => rfl
  | cons c cs ih =>
    obtain ⟨first, others, hc, hhead⟩ := utf8Head_encode c (utf8Chars cs)
    have hbytes : utf8Chars (c :: cs) = first :: (others ++ utf8Chars cs) := by
      simp [utf8Chars, hc]
    rw [hbytes, ofUtf8From, hhead]
    simp only [Nat.add_sub_cancel]
    rw [ofUtf8From_skip, ih]
    rfl

/-- **Texts are read back** from their bytes. -/
@[simp] theorem ofUtf8_utf8 (s : String) : ofUtf8 (utf8 s) = .ok s := by
  rw [ofUtf8, charsOfUtf8, utf8, ofUtf8From_utf8Chars]
  simp [Except.map]

/-- What is read as characters are their bytes. -/
theorem utf8Chars_of_ofUtf8From {index : Nat} {bytes : Bytes} {cs : List Char}
    (h : ofUtf8From index 0 bytes = .ok cs) : utf8Chars cs = bytes := by
  induction cs generalizing index bytes with
  | nil =>
    cases bytes with
    | nil => rfl
    | cons first rest =>
      rw [ofUtf8From] at h
      split at h
      · rename_i c count hhead
        cases hr : ofUtf8From (index + 1) (count - 1) rest with
        | error fault => rw [hr] at h; cases h
        | ok others => rw [hr] at h; cases h
      · cases h
      · cases h
  | cons c cs ih =>
    cases bytes with
    | nil => cases h
    | cons first rest =>
      rw [ofUtf8From] at h
      split at h
      · rename_i d count hhead
        -- The bytes of the first character are skipped, and the others are read behind them.
        obtain ⟨others, tail, rfl, rfl, hc⟩ := exists_of_utf8Head_eq_char hhead
        rw [Nat.add_sub_cancel, ofUtf8From_skip] at h
        cases hr : ofUtf8From (index + 1 + others.length) 0 tail with
        | error fault => rw [hr] at h; cases h
        | ok more =>
          rw [hr] at h
          cases h
          rw [utf8Chars, List.flatMap_cons, hc, List.cons_append, ← utf8Chars, ih hr]
      · cases h
      · cases h

/-- **Bytes are read as a text** exactly if they are the bytes of the text. -/
theorem ofUtf8_eq_ok_iff {bytes : Bytes} {s : String} : ofUtf8 bytes = .ok s ↔ utf8 s = bytes := by
  constructor
  · intro h
    rw [ofUtf8, charsOfUtf8] at h
    cases hr : ofUtf8From 0 0 bytes with
    | error fault => rw [hr] at h; cases h
    | ok cs =>
      rw [hr] at h
      obtain rfl := Except.ok.inj h
      rw [utf8, String.toList_ofList]
      exact utf8Chars_of_ofUtf8From hr
  · rintro rfl
    exact ofUtf8_utf8 s

/-- The bytes of characters are read as the text of the characters. -/
theorem ofUtf8_utf8Chars (cs : List Char) : ofUtf8 (utf8Chars cs) = .ok (String.ofList cs) := by
  rw [ofUtf8_eq_ok_iff, utf8, String.toList_ofList]

/-- What is read without a fault needs no replacement character. -/
theorem lossyFrom_of_ofUtf8From {index skip : Nat} {bytes : Bytes} {cs : List Char}
    (h : ofUtf8From index skip bytes = .ok cs) : lossyFrom skip bytes = cs := by
  induction bytes generalizing index skip cs with
  | nil =>
    rw [ofUtf8From] at h
    rw [lossyFrom]
    exact Except.ok.inj h
  | cons first rest ih =>
    cases skip with
    | succ skip =>
      rw [ofUtf8From] at h
      rw [lossyFrom]
      exact ih h
    | zero =>
      rw [ofUtf8From] at h
      rw [lossyFrom]
      split at h
      · cases hr : ofUtf8From (index + 1) (_ - 1) rest with
        | error fault => rw [hr] at h; cases h
        | ok others =>
          rw [hr] at h
          obtain rfl := Except.ok.inj h
          rw [ih hr]
      · cases h
      · cases h

/-- The text is read back, whatever is done about faults. -/
@[simp] theorem ofUtf8Lossy_utf8 (s : String) : ofUtf8Lossy (utf8 s) = s := by
  rw [ofUtf8Lossy, utf8, lossyFrom_of_ofUtf8From (ofUtf8From_utf8Chars 0 s.toList),
    String.ofList_toList]

/-- The characters of ASCII bytes have these bytes. -/
theorem utf8Chars_ascii {bytes : Bytes} (h : ∀ b ∈ bytes, b < 0x80) :
    utf8Chars (bytes.map fun b => Char.ofNat b.toNat) = bytes := by
  induction bytes with
  | nil => rfl
  | cons b rest ih =>
    have hlt : b.toNat < 0x80 := h b List.mem_cons_self
    have hchar : (Char.ofNat b.toNat).toNat = b.toNat := toNat_ofNat (.inl (by omega))
    have hbyte : String.utf8EncodeChar (Char.ofNat b.toNat) = [b] := by
      rw [utf8EncodeChar_of_ascii (by rw [hchar]; exact hlt), hchar, UInt8.ofNat_toNat]
    have hrest := ih fun b hb => h b (List.mem_cons_of_mem _ hb)
    rw [utf8Chars] at hrest
    rw [utf8Chars, List.map_cons, List.flatMap_cons, hbyte, List.singleton_append, hrest]

/-- A byte of a character is as large as the character, unless both are beyond the controls. -/
theorem le_of_mem_utf8EncodeChar {low : Nat} (hlow : low ≤ 0x80) {c : Char} (hc : low ≤ c.toNat)
    {b : UInt8} (hb : b ∈ String.utf8EncodeChar c) : low ≤ b.toNat := by
  have hvalid := toNat_isValid c
  rw [String.utf8EncodeChar, show c.val.toNat = c.toNat from rfl] at hb
  generalize c.toNat = n at *
  split_ifs at hb <;> simp only [List.mem_cons, List.not_mem_nil, or_false] at hb <;>
    rcases hb with rfl | rfl | rfl | rfl <;> rw [toNat_byte (by omega)] <;> omega

/-- The bytes of a text are as large as its characters, up to the end of the single bytes. -/
theorem le_of_mem_utf8 {low : Nat} (hlow : low ≤ 0x80) {s : String}
    (hs : ∀ c ∈ s.toList, low ≤ c.toNat) {b : UInt8} (hb : b ∈ utf8 s) : low ≤ b.toNat := by
  obtain ⟨c, hc, hb⟩ := List.mem_flatMap.mp hb
  exact le_of_mem_utf8EncodeChar hlow (hs c hc) hb

/-- Characters whose bytes end in an ASCII byte end in its character. -/
theorem utf8Chars_eq_append_iff {cs : List Char} {bytes : Bytes} {b : UInt8} (hb : b < 0x80) :
    utf8Chars cs = bytes ++ [b] ↔
      ∃ front, cs = front ++ [Char.ofNat b.toNat] ∧ utf8Chars front = bytes := by
  have happend : ∀ front back, utf8Chars (front ++ back) = utf8Chars front ++ utf8Chars back :=
    fun _ _ => List.flatMap_append
  constructor
  · intro h
    rcases List.eq_nil_or_concat cs with rfl | ⟨front, c, rfl⟩
    · cases bytes <;> cases h
    rw [List.concat_eq_append, happend, utf8Chars, utf8Chars, List.flatMap_singleton] at h
    -- The last byte is a byte of the last character, which is as small.
    have hlt : c.toNat < 0x80 := by
      have hmem : b ∈ String.utf8EncodeChar c := by
        obtain ⟨first, others, hc, -⟩ := utf8Head_encode c []
        have hlast := congrArg List.getLast? h
        rw [hc, List.getLast?_append, List.getLast?_cons, Option.some_or, ← List.getLast?_cons,
          List.getLast?_concat] at hlast
        rw [hc]
        exact List.mem_of_getLast? hlast
      refine Nat.lt_of_not_le fun hbig => ?_
      have hlarge := le_of_mem_utf8EncodeChar (Nat.le_refl _) hbig hmem
      have hsmall : b.toNat < 0x80 := hb
      omega
    rw [utf8EncodeChar_of_ascii hlt] at h
    obtain ⟨hfront, hlast⟩ := List.append_inj' h rfl
    refine ⟨front, ?_, hfront⟩
    rw [List.concat_eq_append, ← (List.cons.inj hlast).1, toNat_byte (by omega),
      Char.ofNat_toNat]
  · rintro ⟨front, rfl, rfl⟩
    have hchar : utf8Chars ([b].map fun b => Char.ofNat b.toNat) = [b] :=
      utf8Chars_ascii (by simpa using hb)
    rw [happend]
    exact congrArg _ hchar

end DocRelay.Text
