import DocRelay.Json.Print
import DocRelay.Proofs.Json.Grammar

namespace DocRelay.Json

/-!
# What is written is of the grammar: strings and integers

What is written for a string is a string of the grammar and spells the string, and what is written
for an integer of 64 bits is a number of the grammar and stands for the integer.

* `exists_glyph`, `exists_glyphs` — characters and strings;
* `digitsValue`, `absorb_eq` — the number that digits spell;
* `IsWord`, `exists_numeral` — integers of 64 bits.
-/

/-! ### Strings -/

/-- The digits of a control spell its number. -/
theorem hexNumber_control : ∀ n < 0x20,
    hexNumber? ['0', '0', Nat.digitChar (n / 16), Nat.digitChar (n % 16)] = some n := by
  decide

/-- **How a character is written**: as a part of a string that spells the character. -/
theorem exists_glyph (c : Char) :
    ∃ glyph : Glyph, glyph.chars = escapeChar c ∧
      ∀ rest, spell? (glyph :: rest) = (spell? rest).map (c :: ·) := by
  have short : ∀ letter, shortEscape? letter = some c → escapeChar c = ['\\', letter] →
      ∃ glyph : Glyph, glyph.chars = escapeChar c ∧
        ∀ rest, spell? (glyph :: rest) = (spell? rest).map (c :: ·) :=
    fun letter stands hc => ⟨.short letter c stands, hc.symm, fun rest => by rw [spell?]⟩
  by_cases hquote : c = '"'
  · exact short '"' (by rw [hquote]; rfl) (by rw [hquote]; rfl)
  by_cases hslash : c = '\\'
  · exact short '\\' (by rw [hslash]; rfl) (by rw [hslash]; rfl)
  by_cases hcontrol : c.toNat < 0x20
  · have hc : c = Char.ofNat c.toNat := (Char.ofNat_toNat c).symm
    by_cases hn : c = '\n'
    · exact short 'n' (hn ▸ rfl) (hn ▸ rfl)
    by_cases hr : c = '\r'
    · exact short 'r' (hr ▸ rfl) (hr ▸ rfl)
    by_cases ht : c = '\t'
    · exact short 't' (ht ▸ rfl) (ht ▸ rfl)
    by_cases hb : c.toNat = 0x08
    · rw [hb] at hc
      exact short 'b' (hc ▸ rfl) (hc ▸ rfl)
    by_cases hf : c.toNat = 0x0C
    · rw [hf] at hc
      exact short 'f' (hc ▸ rfl) (hc ▸ rfl)
    -- Controls without a letter of their own are written by number, and no control is a surrogate.
    refine ⟨.unicode ['0', '0', Nat.digitChar (c.toNat / 16), Nat.digitChar (c.toNat % 16)] c.toNat
      rfl (hexNumber_control c.toNat hcontrol), ?_, fun rest => ?_⟩
    · simp [Glyph.chars, escapeChar, hquote, hslash, hn, hr, ht, hb, hf, hcontrol]
    · have hlow : ¬isLow c.toNat = true := by simp [isLow]; omega
      have hhigh : ¬isHigh c.toNat = true := by simp [isHigh]; omega
      rw [spell?_single hlow hhigh, Char.ofNat_toNat]
  · have hne : ∀ d : Char, d.toNat < 0x20 → c ≠ d := fun d hd hcd => hcontrol (hcd ▸ hd)
    have hb : c.toNat ≠ 0x08 := by omega
    have hf : c.toNat ≠ 0x0C := by omega
    refine ⟨.plain c ⟨hquote, hslash, Nat.le_of_not_lt hcontrol⟩, ?_, fun rest => by rw [spell?]⟩
    simp [Glyph.chars, escapeChar, hquote, hslash, hne '\n' (by decide), hne '\r' (by decide),
      hne '\t' (by decide), hb, hf, hcontrol]

/-- **How a string is written**: as a string that spells it. -/
theorem exists_glyphs (s : String) :
    ∃ glyphs, '"' :: glyphChars glyphs = quote s ∧ glyphText? glyphs = some s := by
  -- Each character has a part of its own, so they can be put one behind the other.
  have hchars : ∀ cs : List Char, ∃ glyphs : List Glyph,
      glyphs.flatMap Glyph.chars = cs.flatMap escapeChar ∧ spell? glyphs = some cs := by
    intro cs
    induction cs with
    | nil => exact ⟨[], rfl, by rw [spell?]⟩
    | cons c cs ih =>
      obtain ⟨glyph, hglyph, hspell⟩ := exists_glyph c
      obtain ⟨glyphs, hglyphs, hspells⟩ := ih
      refine ⟨glyph :: glyphs, ?_, ?_⟩
      · rw [List.flatMap_cons, List.flatMap_cons, hglyph, hglyphs]
      · rw [hspell, hspells]
        rfl
  obtain ⟨glyphs, hglyphs, hspells⟩ := hchars s.toList
  refine ⟨glyphs, ?_, ?_⟩
  · rw [glyphChars, hglyphs, quote]
    rfl
  · rw [glyphText?, hspells]
    simp

/-! ### Integers -/

/-- The number that digits spell behind a word. -/
def digitsValue (word : Nat) (digits : List Char) : Nat :=
  digits.foldl (fun word c => word * 10 + digitValue c) word

/-- Digits make a word no smaller. -/
theorem le_digitsValue (word : Nat) (digits : List Char) : word ≤ digitsValue word digits := by
  induction digits generalizing word with
  | nil => exact Nat.le_refl word
  | cons c digits ih =>
    have := ih (word * 10 + digitValue c)
    rw [digitsValue, List.foldl_cons, ← digitsValue]
    omega

/-- Digits that fit a word are all taken into it. -/
theorem absorb_eq {word : Nat} {digits : List Char} (h : digitsValue word digits ≤ maxWord) :
    absorb word digits = (digitsValue word digits, digits.length) := by
  induction digits generalizing word with
  | nil => rfl
  | cons c digits ih =>
    have hgrown : digitsValue (word * 10 + digitValue c) digits ≤ maxWord := h
    have hle := le_digitsValue (word * 10 + digitValue c) digits
    rw [absorb]
    simp only [if_neg (Nat.not_lt.mpr (Nat.le_trans hle hgrown)), ih hgrown]
    rfl

/-- The digits of a number spell it. -/
theorem digitsValue_toDigits (n : Nat) : digitsValue 0 (Nat.toDigits 10 n) = n := by
  have hdigits : digitsValue 0 (Nat.toDigits 10 n) = Nat.ofDigitChars 10 (Nat.toDigits 10 n) 0 := by
    rw [digitsValue, Nat.ofDigitChars]
    congr 1
    funext word c
    rw [Nat.mul_comm]
    rfl
  rw [hdigits, Nat.ofDigitChars_ten_toDigits]

/-- Numbers are written without leading zeros. -/
theorem head_toDigits_ne_zero {n : Nat} (h : n ≠ 0) : (Nat.toDigits 10 n).head? ≠ some '0' := by
  induction n using Nat.strongRecOn with
  | ind n ih =>
    by_cases hn : n < 10
    · have hdigit : ∀ k < 10, k ≠ 0 → [Nat.digitChar k].head? ≠ some '0' := by decide
      rw [Nat.toDigits_of_lt_base hn]
      exact hdigit n hn h
    · have hfront := ih (n / 10) (by omega) (by omega)
      obtain ⟨c, others, hdigits⟩ :=
        List.exists_cons_of_ne_nil (Nat.toDigits_ne_nil (n := n / 10) (b := 10))
      rw [hdigits] at hfront
      rw [Nat.toDigits_of_base_le (by omega) (Nat.le_of_not_lt hn), hdigits]
      exact hfront

/-- The integers of 64 bits, signed or unsigned. -/
def IsWord (n : Int) : Prop :=
  -0x8000000000000000 ≤ n ∧ n ≤ maxWord

instance (n : Int) : Decidable (IsWord n) :=
  inferInstanceAs (Decidable (_ ∧ _))

/-- **How an integer of 64 bits is written**: as a number that stands for it. -/
theorem exists_numeral {n : Int} (h : IsWord n) :
    ∃ numeral : Numeral, numeral.chars = renderInt n ∧ numeral.value? = some (.int n) := by
  obtain ⟨hlow, hhigh⟩ := h
  have hword : n.natAbs ≤ maxWord := by
    rw [maxWord] at *
    omega
  have hdigit : ∀ c ∈ Nat.toDigits 10 n.natAbs, c.isDigit = true := fun c hc =>
    Nat.isDigit_of_mem_toDigits (by omega) (Nat.le_refl 10) hc
  -- The grammar allows no leading zeros, and there are none.
  have hleading : (Nat.toDigits 10 n.natAbs).head? = some '0' →
      (Nat.toDigits 10 n.natAbs).length = 1 := by
    intro hhead
    by_cases hzero : n.natAbs = 0
    · rw [hzero]
      rfl
    · exact absurd hhead (head_toDigits_ne_zero hzero)
  have habsorb : absorb 0 (Nat.toDigits 10 n.natAbs)
      = (n.natAbs, (Nat.toDigits 10 n.natAbs).length) := by
    have hvalue := digitsValue_toDigits n.natAbs
    rw [absorb_eq (hvalue.symm ▸ hword), hvalue]
  -- The magnitude of a negative integer is at most that of the smallest one.
  have hinteger : integerOf (decide (n < 0)) n.natAbs = .int n := by
    by_cases hn : n < 0
    · have hmagnitude : (n.natAbs == 0 || decide (0x8000000000000000 < n.natAbs)) = false := by
        simp
        omega
      rw [decide_eq_true hn, integerOf, if_neg (by decide), if_neg (by simp [hmagnitude])]
      congr 1
      omega
    · rw [decide_eq_false hn]
      change Json.int n.natAbs = .int n
      rw [Int.natAbs_of_nonneg (by omega)]
  refine ⟨⟨decide (n < 0), ⟨Nat.toDigits 10 n.natAbs, Nat.toDigits_ne_nil, hdigit⟩, hleading, none,
    none⟩, ?_, ?_⟩
  · rw [Numeral.chars, Numeral.magnitudeChars, renderInt]
    simp [fractionChars, exponentChars]
  · rw [Numeral.value?]
    simp only [habsorb, beq_self_eq_true, if_true, hinteger]

end DocRelay.Json
