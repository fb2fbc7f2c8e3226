import DocRelay.Json.Read

namespace DocRelay.Json

/-!
# The grammar of texts

The texts of the format as concrete trees, which keep what the values do not: the blanks, the way
a character of a string is written, the digits of a number.  Every tree has its characters.  Not
every tree has a value: half a pair of surrogates spells no character, a number may be too large,
and parts may be nested too deep.

* `Blanks`, `Glyph`, `Numeral` — blanks, the parts of strings, and numbers, by the grammar;
* `Spaced`, `Entry`, `Phrase` — values with blanks around them, members of objects, and values;
* `Phrase.chars` — the characters of a tree;
* `spell?`, `Numeral.value?`, `Phrase.value?` — what a tree stands for, if anything;
* `spell?_low`, `spell?_single`, `spell?_pair`, `spell?_half` — how numbers of characters spell.
-/

/-! ### Trees -/

/-- Blanks, perhaps none. -/
structure Blanks where
  chars : List Char
  blank : ∀ c ∈ chars, Cursor.isBlank c = true

/-- No blanks. -/
def Blanks.empty : Blanks := ⟨[], fun _ hc => absurd hc List.not_mem_nil⟩

/-- A part of a string, between its quotes. -/
inductive Glyph where
  /-- A character that stands for itself. -/
  | plain (c : Char) (unquoted : c ≠ '"' ∧ c ≠ '\\' ∧ 0x20 ≤ c.toNat)
  /-- A letter behind a backslash, and the character that it stands for. -/
  | short (letter c : Char) (stands : shortEscape? letter = some c)
  /-- Four hexadecimal digits behind a backslash and `u`, and their number. -/
  | unicode (digits : List Char) (n : Nat) (four : digits.length = 4)
    (spells : hexNumber? digits = some n)

/-- Decimal digits, at least one. -/
structure Digits where
  chars : List Char
  nonempty : chars ≠ []
  digit : ∀ c ∈ chars, c.isDigit = true

/-- The exponent of a number. -/
structure Exponent where
  letter : Char
  isLetter : letter = 'e' ∨ letter = 'E'
  sign : Option Char
  isSign : ∀ c ∈ sign, c = '+' ∨ c = '-'
  digits : Digits

/-- A number. -/
structure Numeral where
  minus : Bool
  whole : Digits
  /-- A leading zero is the only digit before the point. -/
  leading : whole.chars.head? = some '0' → whole.chars.length = 1
  fraction : Option Digits
  exponent : Option Exponent

/-- Something with blanks around it. -/
structure Spaced (α : Type) where
  before : Blanks
  core : α
  after : Blanks

/-- A member of an object: its key, with blanks around it, and its value behind the colon. -/
structure Entry (α : Type) where
  before : Blanks
  key : List Glyph
  gap : Blanks
  value : Spaced α

/-- A value. -/
inductive Phrase where
  | null
  | bool (b : Bool)
  | num (n : Numeral)
  | str (glyphs : List Glyph)
  /-- A list; the blanks right behind its bracket come first, as there may be no items. -/
  | arr (inside : Blanks) (items : List (Spaced Phrase))
  /-- An object; the blanks right behind its brace come first. -/
  | obj (inside : Blanks) (members : List (Entry Phrase))

/-! ### Characters -/

/-- The characters of a part of a string. -/
def Glyph.chars : Glyph → List Char
  | .plain c _ => [c]
  | .short letter _ _ => ['\\', letter]
  | .unicode digits _ _ _ => '\\' :: 'u' :: digits

/-- The characters of a string behind its first quote. -/
def glyphChars (glyphs : List Glyph) : List Char :=
  glyphs.flatMap Glyph.chars ++ ['"']

/-- The characters of an exponent. -/
def Exponent.chars (e : Exponent) : List Char :=
  e.letter :: (e.sign.toList ++ e.digits.chars)

/-- The characters of an exponent, if there is one. -/
def exponentChars : Option Exponent → List Char
  | none => []
  | some e => e.chars

/-- The characters of a fraction, if there is one. -/
def fractionChars : Option Digits → List Char
  | none => []
  | some digits => '.' :: digits.chars

/-- The characters of a number behind its sign. -/
def Numeral.magnitudeChars (n : Numeral) : List Char :=
  n.whole.chars ++ (fractionChars n.fraction ++ exponentChars n.exponent)

/-- The characters of a number. -/
def Numeral.chars (n : Numeral) : List Char :=
  if n.minus then '-' :: n.magnitudeChars else n.magnitudeChars

/-- The comma before all pieces but the first. -/
def comma (first : Bool) : List Char :=
  if first then [] else [',']

mutual

/-- The characters of a value. -/
def Phrase.chars : Phrase → List Char
  | .null => ['n', 'u', 'l', 'l']
  | .bool true => ['t', 'r', 'u', 'e']
  | .bool false => ['f', 'a', 'l', 's', 'e']
  | .num n => n.chars
  | .str glyphs => '"' :: glyphChars glyphs
  | .arr inside items => '[' :: (inside.chars ++ (Phrase.itemsChars true items ++ [']']))
  | .obj inside members =>
    '\x7b' :: (inside.chars ++ (Phrase.membersChars true members ++ ['\x7d']))

/-- The characters of a value with blanks around it. -/
def Phrase.spacedChars : Spaced Phrase → List Char
  | ⟨before, core, after⟩ => before.chars ++ (core.chars ++ after.chars)

/-- The characters of a member. -/
def Phrase.entryChars : Entry Phrase → List Char
  | ⟨before, key, gap, value⟩ =>
    before.chars ++ '"' :: (glyphChars key ++ (gap.chars ++ ':' :: Phrase.spacedChars value))

/-- The characters of items. -/
def Phrase.itemsChars : Bool → List (Spaced Phrase) → List Char
  | _, [] => []
  | first, item :: rest => comma first ++ (Phrase.spacedChars item ++ Phrase.itemsChars false rest)

/-- The characters of members. -/
def Phrase.membersChars : Bool → List (Entry Phrase) → List Char
  | _, [] => []
  | first, m :: rest => comma first ++ (Phrase.entryChars m ++ Phrase.membersChars false rest)

end

/-- The characters of a text that is one value. -/
def Spaced.chars (p : Spaced Phrase) : List Char := Phrase.spacedChars p

/-! ### What trees stand for -/

/-- The number is the first half of a pair of surrogates. -/
def isHigh (n : Nat) : Bool := 0xD800 ≤ n && n ≤ 0xDBFF

/-- The number is the second half of a pair of surrogates. -/
def isLow (n : Nat) : Bool := 0xDC00 ≤ n && n ≤ 0xDFFF

/-- The character of a pair of surrogates. -/
def pairChar (high low : Nat) : Char :=
  Char.ofNat (0x10000 + (high - 0xD800) * 0x400 + (low - 0xDC00))

/-- The characters that the parts of a string spell.  Half a pair of surrogates spells nothing. -/
def spell? : List Glyph → Option (List Char)
  | [] => some []
  | .plain c _ :: rest => (spell? rest).map (c :: ·)
  | .short _ c _ :: rest => (spell? rest).map (c :: ·)
  | .unicode _ n _ _ :: rest =>
    if isLow n then none
    else if isHigh n then
      match rest with
      | .unicode _ low _ _ :: rest =>
        if isLow low then (spell? rest).map (pairChar n low :: ·) else none
      | _ => none
    else (spell? rest).map (Char.ofNat n :: ·)

section Spelling

variable {digits digits' : List Char} {n n' : Nat} {four : digits.length = 4}
  {spells : hexNumber? digits = some n} {four' : digits'.length = 4}
  {spells' : hexNumber? digits' = some n'} {rest : List Glyph}

/-- The second half of a pair does not come first. -/
theorem spell?_low (low : isLow n = true) :
    spell? (.unicode digits n four spells :: rest) = none := by
  rw [spell?.eq_def]
  exact if_pos low

/-- A character of the basic plane. -/
theorem spell?_single (low : ¬isLow n = true) (high : ¬isHigh n = true) :
    spell? (.unicode digits n four spells :: rest) = (spell? rest).map (Char.ofNat n :: ·) := by
  rw [spell?.eq_def]
  simp only [if_neg low, if_neg high]

/-- Two numbers, of which the first one is the first half of a pair. -/
theorem spell?_pair (low : ¬isLow n = true) (high : isHigh n = true) :
    spell? (.unicode digits n four spells :: .unicode digits' n' four' spells' :: rest)
      = if isLow n' then (spell? rest).map (pairChar n n' :: ·) else none := by
  rw [spell?.eq_def]
  simp only [if_neg low, if_pos high]

/-- The first half of a pair, and no number behind it. -/
theorem spell?_half (low : ¬isLow n = true) (high : isHigh n = true)
    (lone : ∀ digits n four spells others, rest ≠ .unicode digits n four spells :: others) :
    spell? (.unicode digits n four spells :: rest) = none := by
  rw [spell?.eq_def]
  simp only [if_neg low, if_pos high]

end Spelling

/-- The text that the parts of a string spell. -/
def glyphText? (glyphs : List Glyph) : Option String :=
  (spell? glyphs).map String.ofList

/-- The number `± word · 10 ^ power`, unless it is past the largest finite number. -/
def float? (negative : Bool) (word : Nat) (power : Int) : Option Json :=
  (scale 4 (Binary64.ofInt word) power).map fun x => .float (if negative then x.neg else x)

/-- The number with an exponent.  An exponent past 32 bits is too large, unless it is the one of a
    zero or of a number near zero. -/
def Exponent.value? (e : Exponent) (negative : Bool) (word : Nat) (power : Int) : Option Json :=
  let (exponent, count) := absorbExponent 0 e.digits.chars
  if count < e.digits.chars.length then
    if word != 0 && e.sign != some '-' then none else some (.float (Binary64.zero negative))
  else float? negative word (if e.sign == some '-' then power - exponent else power + exponent)

/-- The number with an exponent, if there is one. -/
def exponentValue? (negative : Bool) (word : Nat) (power : Int) : Option Exponent → Option Json
  | none => float? negative word power
  | some e => e.value? negative word power

/-- The value of a number, unless it is past the largest finite number. -/
def Numeral.value? (n : Numeral) : Option Json :=
  let (word, count) := absorb 0 n.whole.chars
  let power : Int := (n.whole.chars.length - count : Nat)
  match n.fraction, n.exponent with
  | some digits, exponent =>
    let (grown, taken) := absorb word digits.chars
    exponentValue? n.minus grown (power - taken) exponent
  | none, some e => e.value? n.minus word power
  | none, none =>
    if count == n.whole.chars.length then some (integerOf n.minus word)
    else float? n.minus word power

/-- The key and the value of a member, given the values of its parts. -/
def Entry.value? {α : Type} (part? : α → Option Json) (m : Entry α) : Option (String × Json) := do
  let key ← glyphText? m.key
  let value ← part? m.value.core
  return (key, value)

/-- What a tree stands for, if its strings spell texts, its numbers are not too large and it is
    nested at most `depth` levels deep. -/
def Phrase.value? : Nat → Phrase → Option Json
  | _, .null => some .null
  | _, .bool b => some (.bool b)
  | _, .num n => n.value?
  | _, .str glyphs => (glyphText? glyphs).map .str
  | 0, .arr _ _ => none
  | 0, .obj _ _ => none
  | depth + 1, .arr _ items => (items.mapM fun item => value? depth item.core).map .arr
  | depth + 1, .obj _ members => (members.mapM (Entry.value? (value? depth))).map .obj

end DocRelay.Json
