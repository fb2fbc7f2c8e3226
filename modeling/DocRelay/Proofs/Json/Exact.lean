import DocRelay.Proofs.Json.Grammar

namespace DocRelay.Json

/-!
# What comes of reading strings and numbers

A reader at a text of the grammar gets what the text stands for and goes just past it, and refuses
the text if it stands for nothing.

* `Ends`, `ComesTo`, `Reads` — what ends a value, and the outcome of a reader, at a place and at
  all places;
* `ComesTo.bind`, `ComesTo.map` — one reader after another;
* `Cursor.rest_skipBlanks`, `readWord_append` — blanks and words are passed;
* `readString_glyphChars` — strings, behind their first quote;
* `reads_numeral` — numbers.
-/

variable {α β : Type}

/-- What follows does not go on a number. -/
def Ends (rest : List Char) : Prop :=
  ∀ c ∈ rest.head?, c.isDigit = false ∧ c ≠ '.' ∧ c ≠ 'e' ∧ c ≠ 'E'

/-- The outcome is the value, with the rest of the text left, or a refusal if there is none. -/
def ComesTo (outcome : Except Fault (α × Cursor)) (value? : Option α) (rest : List Char) : Prop :=
  match value? with
  | some value => ∃ after, outcome = .ok (value, after) ∧ after.rest = rest
  | none => ∃ fault, outcome = .error fault

/-- The reader makes the value of the text, if there is one, and goes just past the text. -/
def Reads (reader : Cursor → Except Fault (α × Cursor)) (text : List Char) (value? : Option α) :
    Prop :=
  ∀ cur rest, Ends rest → cur.rest = text ++ rest → ComesTo (reader cur) value? rest

/-- A value that is read, and another one behind it. -/
theorem ComesTo.bind {outcome : Except Fault (α × Cursor)} {value? : Option α}
    {rest last : List Char} {next : α × Cursor → Except Fault (β × Cursor)}
    {next? : α → Option β} (h : ComesTo outcome value? rest)
    (hnext : ∀ value after, value? = some value → after.rest = rest →
      ComesTo (next (value, after)) (next? value) last) :
    ComesTo (outcome >>= next) (value?.bind next?) last := by
  cases value? with
  | none =>
    obtain ⟨fault, rfl⟩ := h
    exact ⟨fault, rfl⟩
  | some value =>
    obtain ⟨after, rfl, hafter⟩ := h
    exact hnext value after rfl hafter

/-- A value that is read and made into another one. -/
theorem ComesTo.map {outcome : Except Fault (α × Cursor)} {value? : Option α}
    {rest : List Char} (h : ComesTo outcome value? rest) (f : α → β) :
    ComesTo (outcome >>= fun read => pure (f read.1, read.2)) (value?.map f) rest := by
  cases value? with
  | none =>
    obtain ⟨fault, rfl⟩ := h
    exact ⟨fault, rfl⟩
  | some value =>
    obtain ⟨after, rfl, hafter⟩ := h
    exact ⟨after, rfl, hafter⟩

/-- A character that goes on no number ends a value. -/
theorem ends_cons {c : Char} (h : c.isDigit = false ∧ c ≠ '.' ∧ c ≠ 'e' ∧ c ≠ 'E')
    (rest : List Char) : Ends (c :: rest) := by
  rintro d ⟨⟩
  exact h

/-- The characters that pass a test, up to the first one that does not. -/
theorem takeWhile_append {test : Char → Bool} {chars rest : List Char}
    (hpass : ∀ c ∈ chars, test c = true) (hrest : ∀ c ∈ rest.head?, test c = false) :
    (chars ++ rest).takeWhile test = chars := by
  have hnone : rest.takeWhile test = [] := by
    cases rest with
    | nil => rfl
    | cons c rest => exact List.takeWhile_cons_of_neg (by simp [hrest c rfl])
  rw [List.takeWhile_append_of_pos hpass, hnone, List.append_nil]

/-- Past the first character. -/
theorem Cursor.rest_advance_of_eq {cur : Cursor} {c : Char} {rest : List Char}
    (h : cur.rest = c :: rest) : cur.advance.rest = rest := by
  rw [Cursor.rest_advance, h, List.tail_cons]

/-! ### Blanks and words -/

/-- No blanks are skipped before another character. -/
theorem Cursor.skipBlanks_eq_self {cur : Cursor} {c : Char} {rest : List Char}
    (h : cur.rest = c :: rest) (hc : Cursor.isBlank c = false) : cur.skipBlanks = cur := by
  rw [Cursor.skipBlanks, Cursor.skipWhile, h, List.takeWhile_cons_of_neg (by simp [hc])]
  rfl

/-- Blanks are passed. -/
theorem Cursor.rest_skipBlanks {cur : Cursor} {lead rest : List Char}
    (hlead : ∀ c ∈ lead, Cursor.isBlank c = true)
    (hrest : ∀ c ∈ rest.head?, Cursor.isBlank c = false) (hcur : cur.rest = lead ++ rest) :
    cur.skipBlanks.rest = rest := by
  rw [Cursor.skipBlanks, Cursor.skipWhile, Cursor.rest_advanceBy, hcur,
    takeWhile_append hlead hrest, List.drop_left]

/-- The letters of a word are passed. -/
theorem readWord_append {letters : List Char} {cur : Cursor} {rest : List Char}
    (h : cur.rest = letters ++ rest) :
    ∃ after, readWord letters cur = .ok after ∧ after.rest = rest := by
  induction letters generalizing cur with
  | nil => exact ⟨cur, rfl, h⟩
  | cons letter letters ih =>
    rw [readWord, h]
    simp only [List.cons_append, beq_self_eq_true, if_true]
    exact ih (Cursor.rest_advance_of_eq h)

/-! ### Strings -/

/-- No `u` stands for another character. -/
theorem short_ne_u {letter c : Char} (h : shortEscape? letter = some c) : letter ≠ 'u' := by
  rintro rfl
  cases h

/-- A letter that stands for another character behind a backslash. -/
theorem readEscape_short {letter c : Char} (h : shortEscape? letter = some c) {cur : Cursor}
    {rest : List Char} (hcur : cur.rest = letter :: rest) :
    ComesTo (readEscape cur) (some c) rest := by
  refine ⟨cur.advance, ?_, Cursor.rest_advance_of_eq hcur⟩
  rw [readEscape, hcur]
  simp only [beq_iff_eq, short_ne_u h, if_false, h]

/-- Four hexadecimal digits are read as their number. -/
theorem readFourHex_append {digits : List Char} {n : Nat} (hfour : digits.length = 4)
    (hspells : hexNumber? digits = some n) {cur : Cursor} {rest : List Char}
    (hcur : cur.rest = digits ++ rest) :
    ∃ after, readFourHex cur = .ok (n, after) ∧ after.rest = rest := by
  have htake : cur.rest.take 4 = digits := by rw [hcur, ← hfour, List.take_left]
  have hbytes : fourBytesLeft cur = true := by
    rw [fourBytesLeft, htake]
    match digits, hfour with
    | [a, b, c, d], _ =>
      -- Every character has a byte at least.
      have ha := a.utf8Size_pos
      have hb := b.utf8Size_pos
      have hc := c.utf8Size_pos
      have hd := d.utf8Size_pos
      refine decide_eq_true ?_
      simp only [List.foldr_cons, List.foldr_nil]
      omega
  refine ⟨Cursor.advanceBy 4 cur, ?_, ?_⟩
  · rw [readFourHex, htake, hbytes]
    simp [hfour, hspells]
  · rw [Cursor.rest_advanceBy, hcur, ← hfour, List.drop_left]

/-- Where a pair of surrogates goes on. -/
theorem expectInPair_cons {c : Char} {cur : Cursor} {rest : List Char}
    (hcur : cur.rest = c :: rest) : expectInPair c cur = .ok cur.advance := by
  rw [expectInPair, hcur]
  simp

/-- Where a pair of surrogates does not go on. -/
theorem exists_expectInPair_eq_error {c : Char} {cur : Cursor}
    (h : ∀ rest, cur.rest ≠ c :: rest) : ∃ fault, expectInPair c cur = .error fault := by
  rw [expectInPair]
  split
  · exact ⟨_, rfl⟩
  · rename_i d rest hcur
    have hd : ¬ (d == c) = true := fun he => h rest (by rw [hcur, beq_iff_eq.mp he])
    rw [if_neg hd]
    exact ⟨_, rfl⟩

section Unicode

variable {digits : List Char} {n : Nat} (hfour : digits.length = 4)
  (hspells : hexNumber? digits = some n) {cur : Cursor} {rest : List Char}

include hfour hspells

/-- The second half of a pair of surrogates does not come first. -/
theorem readUnicode_low (hlow : isLow n = true) (hcur : cur.rest = digits ++ rest) :
    ComesTo (readUnicode cur) none rest := by
  obtain ⟨after, hread, -⟩ := readFourHex_append hfour hspells hcur
  rw [isLow] at hlow
  refine ⟨.malformed .loneSurrogate after.here, ?_⟩
  rw [readUnicode, hread]
  simp only [bind, Except.bind, hlow, if_true]
  rfl

/-- A character of the basic plane. -/
theorem readUnicode_single (hlow : ¬isLow n = true) (hhigh : ¬isHigh n = true)
    (hcur : cur.rest = digits ++ rest) :
    ComesTo (readUnicode cur) (some (Char.ofNat n)) rest := by
  obtain ⟨after, hread, hafter⟩ := readFourHex_append hfour hspells hcur
  have hout : (decide (n < 0xD800) || decide (0xDBFF < n)) = true := by
    simp only [isHigh, Bool.and_eq_true, decide_eq_true_eq, not_and, Nat.not_le] at hhigh
    simp only [Bool.or_eq_true, decide_eq_true_eq]
    omega
  rw [isLow] at hlow
  refine ⟨after, ?_, hafter⟩
  rw [readUnicode, hread]
  simp only [bind, Except.bind, if_neg hlow, hout, if_true]

/-- Behind the first half of a pair of surrogates its second half is asked for. -/
theorem readUnicode_high (hlow : ¬isLow n = true) (hhigh : isHigh n = true)
    (hcur : cur.rest = digits ++ rest) :
    ∃ after, after.rest = rest ∧ readUnicode cur = (do
      let cur ← expectInPair '\\' after
      let cur ← expectInPair 'u' cur
      let (low, cur) ← readFourHex cur
      if low < 0xDC00 || 0xDFFF < low then cur.fail .loneSurrogate
      else .ok (pairChar n low, cur)) := by
  obtain ⟨after, hread, hafter⟩ := readFourHex_append hfour hspells hcur
  have hin : ¬ (decide (n < 0xD800) || decide (0xDBFF < n)) = true := by
    simp only [isHigh, Bool.and_eq_true, decide_eq_true_eq] at hhigh
    simp only [Bool.or_eq_true, decide_eq_true_eq]
    omega
  rw [isLow] at hlow
  refine ⟨after, hafter, ?_⟩
  rw [readUnicode, hread]
  simp only [bind, Except.bind, if_neg hlow, if_neg hin, pairChar]

/-- A pair of surrogates, if the second number is the second half of one. -/
theorem readUnicode_pair {others : List Char} {low : Nat} (hfour' : others.length = 4)
    (hspells' : hexNumber? others = some low) (hlow : ¬isLow n = true) (hhigh : isHigh n = true)
    (hcur : cur.rest = digits ++ ('\\' :: 'u' :: (others ++ rest))) :
    ComesTo (readUnicode cur) (if isLow low then some (pairChar n low) else none) rest := by
  obtain ⟨after, hafter, hread⟩ := readUnicode_high hfour hspells hlow hhigh hcur
  have hletter := Cursor.rest_advance_of_eq hafter
  have hdigits := Cursor.rest_advance_of_eq hletter
  obtain ⟨last, hsecond, hlast⟩ := readFourHex_append hfour' hspells' hdigits
  have hrange : (decide (low < 0xDC00) || decide (0xDFFF < low)) = !isLow low := by
    rw [Bool.eq_iff_iff]
    simp only [isLow, Bool.or_eq_true, Bool.not_eq_true', Bool.and_eq_false_iff, decide_eq_true_eq,
      decide_eq_false_iff_not, Nat.not_le]
  rw [hread, expectInPair_cons hafter]
  simp only [bind, Except.bind, expectInPair_cons hletter, hsecond, hrange]
  cases isLow low with
  | true => exact ⟨last, rfl, hlast⟩
  | false => exact ⟨.malformed .loneSurrogate last.here, rfl⟩

/-- Half a pair of surrogates. -/
theorem readUnicode_half (hlow : ¬isLow n = true) (hhigh : isHigh n = true)
    (hcur : cur.rest = digits ++ rest) (hrest : ∀ more, rest ≠ '\\' :: 'u' :: more) :
    ComesTo (readUnicode cur) none rest := by
  obtain ⟨after, hafter, hread⟩ := readUnicode_high hfour hspells hlow hhigh hcur
  rw [hread]
  by_cases hslash : ∃ more, rest = '\\' :: more
  · obtain ⟨more, rfl⟩ := hslash
    have hmore := Cursor.rest_advance_of_eq hafter
    obtain ⟨fault, hfault⟩ : ∃ fault, expectInPair 'u' after.advance = .error fault :=
      exists_expectInPair_eq_error fun others he => hrest others (by rw [← hmore, he])
    rw [expectInPair_cons hafter]
    simp only [bind, Except.bind, hfault]
    exact ⟨fault, rfl⟩
  · obtain ⟨fault, hfault⟩ : ∃ fault, expectInPair '\\' after = .error fault :=
      exists_expectInPair_eq_error fun others he => hslash ⟨others, by rw [← hafter, he]⟩
    rw [hfault]
    exact ⟨fault, rfl⟩

end Unicode

/-- The characters of a string that begins with a part. -/
theorem glyphChars_cons (glyph : Glyph) (glyphs : List Glyph) (rest : List Char) :
    glyphChars (glyph :: glyphs) ++ rest = glyph.chars ++ (glyphChars glyphs ++ rest) := by
  simp [glyphChars]

/-- Where a string goes on with digits. -/
theorem readEscape_unicode {digits : List Char} {n : Nat} {four : digits.length = 4}
    {spells : hexNumber? digits = some n} {others : List Glyph} {cur : Cursor} {rest : List Char}
    (hcur : cur.rest = glyphChars (.unicode digits n four spells :: others) ++ rest) :
    (∃ more, cur.rest = '\\' :: more) ∧ readEscape cur.advance = readUnicode cur.advance.advance ∧
      cur.advance.advance.rest = digits ++ (glyphChars others ++ rest) := by
  rw [glyphChars_cons] at hcur
  have hfirst : cur.rest = '\\' :: 'u' :: (digits ++ (glyphChars others ++ rest)) := hcur
  have hletter := Cursor.rest_advance_of_eq hfirst
  refine ⟨⟨_, hfirst⟩, ?_, Cursor.rest_advance_of_eq hletter⟩
  rw [readEscape, hletter]
  rfl

/-- Behind an escape the string goes on. -/
theorem readChars_escape {cur : Cursor} {fuel : Nat} {more mid rest : List Char}
    {escaped? : Option Char} {others? : Option (List Char)} (hcur : cur.rest = '\\' :: more)
    (hescape : ComesTo (readEscape cur.advance) escaped? mid)
    (hothers : ∀ c after, escaped? = some c → after.rest = mid →
      ComesTo (readChars fuel after) others? rest) :
    ComesTo (readChars (fuel + 1) cur) (escaped?.bind fun c => others?.map (c :: ·)) rest := by
  have hread : readChars (fuel + 1) cur = readEscape cur.advance >>= fun escaped =>
      readChars fuel escaped.2 >>= fun read => pure (escaped.1 :: read.1, read.2) := by
    rw [readChars, hcur]
    rfl
  rw [hread]
  exact hescape.bind fun c after hc hafter => (hothers c after hc hafter).map (c :: ·)

/-- An escape that is refused has no string around it. -/
theorem readChars_refused {cur : Cursor} {fuel : Nat} {more mid rest : List Char}
    (hcur : cur.rest = '\\' :: more) (hescape : ComesTo (readEscape cur.advance) none mid) :
    ComesTo (readChars (fuel + 1) cur) none rest := by
  have hwhole : ComesTo (readChars (fuel + 1) cur)
      ((none : Option Char).bind fun c => (none : Option (List Char)).map (c :: ·)) rest :=
    readChars_escape hcur hescape fun _ _ hc => by cases hc
  exact hwhole

/-- The part of a string that is no number does not begin like one. -/
theorem glyphChars_ne_unicode {glyphs : List Glyph}
    (h : ∀ digits low four spells rest, glyphs ≠ .unicode digits low four spells :: rest)
    (rest more : List Char) : glyphChars glyphs ++ rest ≠ '\\' :: 'u' :: more := by
  rw [glyphChars]
  intro he
  cases glyphs with
  | nil => cases he
  | cons glyph glyphs =>
    rw [List.flatMap_cons] at he
    cases glyph with
    | plain c unquoted => exact unquoted.2.1 (List.cons.inj he).1
    | short letter c stands =>
      exact short_ne_u stands (List.cons.inj (List.cons.inj he).2).1
    | unicode digits low four spells => exact h digits low four spells glyphs rfl

/-- **The characters of a string** are read as what its parts spell. -/
theorem readChars_glyphChars {glyphs : List Glyph} {fuel : Nat} (hfuel : glyphs.length ≤ fuel)
    {cur : Cursor} {rest : List Char} (hcur : cur.rest = glyphChars glyphs ++ rest) :
    ComesTo (readChars (fuel + 1) cur) (spell? glyphs) rest := by
  induction glyphs using spell?.induct generalizing fuel cur with
  | case1 =>
    have hquote : cur.rest = '"' :: rest := hcur
    refine ⟨cur.advance, ?_, Cursor.rest_advance_of_eq hquote⟩
    rw [readChars, hquote]
    rfl
  | case2 c unquoted others ih =>
    obtain ⟨fuel, rfl⟩ := Nat.exists_eq_add_of_le' hfuel
    rw [glyphChars_cons] at hcur
    have hfirst : cur.rest = c :: (glyphChars others ++ rest) := hcur
    have hothers := ih (Nat.le_add_left _ fuel) (Cursor.rest_advance_of_eq hfirst)
    obtain ⟨hquote, hslash, hlow⟩ := unquoted
    have hread : readChars (fuel + others.length + 1 + 1) cur
        = readChars (fuel + others.length + 1) cur.advance
          >>= fun read => pure (c :: read.1, read.2) := by
      rw [readChars, hfirst]
      simp only [beq_iff_eq, hquote, hslash, if_false, if_neg (Nat.not_lt.mpr hlow)]
    show ComesTo (readChars (fuel + others.length + 1 + 1) cur) _ rest
    rw [hread, spell?]
    exact hothers.map (c :: ·)
  | case3 letter c stands others ih =>
    obtain ⟨fuel, rfl⟩ := Nat.exists_eq_add_of_le' hfuel
    rw [glyphChars_cons] at hcur
    have hfirst : cur.rest = '\\' :: letter :: (glyphChars others ++ rest) := hcur
    have hescape := readEscape_short stands (Cursor.rest_advance_of_eq hfirst)
    exact readChars_escape hfirst hescape fun _ _ _ hafter =>
      ih (Nat.le_add_left _ fuel) hafter
  | case4 digits n four spells others low =>
    -- The second half of a pair comes first.
    obtain ⟨⟨more, hfirst⟩, hescape, hdigits⟩ := readEscape_unicode hcur
    have hnone := readUnicode_low four spells low hdigits
    rw [← hescape] at hnone
    rw [spell?_low low]
    exact readChars_refused hfirst hnone
  | case5 digits n four spells low high digits' n' four' spells' others low' ih =>
    -- Both halves of a pair come.
    obtain ⟨fuel, rfl⟩ := Nat.exists_eq_add_of_le' hfuel
    obtain ⟨⟨more, hfirst⟩, hescape, hdigits⟩ := readEscape_unicode hcur
    rw [glyphChars_cons] at hdigits
    have hpair := readUnicode_pair four spells four' spells' low high hdigits
    rw [← hescape, if_pos low'] at hpair
    rw [spell?_pair low high, if_pos low']
    exact readChars_escape hfirst hpair fun _ _ _ hafter =>
      ih (Nat.le_trans (Nat.le_succ _) (Nat.le_add_left _ fuel)) hafter
  | case6 digits n four spells low high digits' n' four' spells' others low' =>
    -- The first half of a pair comes before a number that is not its second half.
    obtain ⟨⟨more, hfirst⟩, hescape, hdigits⟩ := readEscape_unicode hcur
    rw [glyphChars_cons] at hdigits
    have hnone := readUnicode_pair four spells four' spells' low high hdigits
    rw [← hescape, if_neg low'] at hnone
    rw [spell?_pair low high, if_neg low']
    exact readChars_refused hfirst hnone
  | case7 digits n four spells others low high lone =>
    -- The first half of a pair comes alone.
    obtain ⟨⟨more, hfirst⟩, hescape, hdigits⟩ := readEscape_unicode hcur
    have hnone := readUnicode_half four spells low high hdigits
      (glyphChars_ne_unicode lone rest)
    rw [← hescape] at hnone
    rw [spell?_half low high lone]
    exact readChars_refused hfirst hnone
  | case8 digits n four spells others low high ih =>
    obtain ⟨fuel, rfl⟩ := Nat.exists_eq_add_of_le' hfuel
    obtain ⟨⟨more, hfirst⟩, hescape, hdigits⟩ := readEscape_unicode hcur
    have hsingle := readUnicode_single four spells low high hdigits
    rw [← hescape] at hsingle
    rw [spell?_single low high]
    exact readChars_escape hfirst hsingle fun _ _ _ hafter =>
      ih (Nat.le_add_left _ fuel) hafter

/-- There are no more parts than characters of a string. -/
theorem length_le_glyphChars (glyphs : List Glyph) :
    glyphs.length ≤ (glyphChars glyphs).length := by
  induction glyphs with
  | nil => exact Nat.zero_le _
  | cons glyph glyphs ih =>
    have hglyph : 1 ≤ glyph.chars.length := by cases glyph <;> simp [Glyph.chars]
    have hcons := congrArg List.length (glyphChars_cons glyph glyphs [])
    rw [List.append_nil, List.append_nil, List.length_append] at hcons
    rw [List.length_cons, hcons]
    omega

/-- **Strings** are read, behind their first quote, as what they spell. -/
theorem readString_glyphChars {glyphs : List Glyph} {cur : Cursor} {rest : List Char}
    (hcur : cur.rest = glyphChars glyphs ++ rest) :
    ComesTo (readString cur) (glyphText? glyphs) rest := by
  have hfuel : glyphs.length ≤ cur.rest.length := by
    have hle := length_le_glyphChars glyphs
    rw [hcur, List.length_append]
    omega
  exact (readChars_glyphChars hfuel hcur).map String.ofList

/-! ### Numbers -/

/-- A decimal digit is no sign. -/
theorem Digits.exists_cons (d : Digits) :
    ∃ c rest, d.chars = c :: rest ∧ c.isDigit = true ∧ c ≠ '+' ∧ c ≠ '-' := by
  obtain ⟨c, rest, hc⟩ := List.exists_cons_of_ne_nil d.nonempty
  have hdigit : c.isDigit = true := d.digit c (hc ▸ List.mem_cons_self)
  refine ⟨c, rest, hc, hdigit, ?_, ?_⟩
  · rintro rfl
    cases hdigit
  · rintro rfl
    cases hdigit

/-- What follows the digits of a number. -/
def EndsDigits (rest : List Char) : Prop :=
  ∀ c ∈ rest.head?, c.isDigit = false

theorem Ends.endsDigits {rest : List Char} (h : Ends rest) : EndsDigits rest :=
  fun c hc => (h c hc).1

/-- Past the digits of a number. -/
theorem Digits.rest_advanceBy (d : Digits) {cur : Cursor} {rest : List Char}
    (hcur : cur.rest = d.chars ++ rest) :
    (Cursor.advanceBy d.chars.length cur).rest = rest := by
  rw [Cursor.rest_advanceBy, hcur, List.drop_left]

section Numbers

variable (negative : Bool) (word : Nat) (power : Int) {cur : Cursor} {rest : List Char}

/-- The number that was read is made, unless it is too large. -/
theorem floatOf_comesTo (hcur : cur.rest = rest) :
    ComesTo (floatOf negative word power cur) (float? negative word power) rest := by
  rw [floatOf, float?]
  cases scale 4 (Binary64.ofInt word) power with
  | none => exact ⟨.malformed .numberOutOfRange cur.here, rfl⟩
  | some x => exact ⟨cur, rfl, hcur⟩

/-- The sign of an exponent is passed, and the digits come behind it. -/
theorem Exponent.sign_cases (e : Exponent) {cur : Cursor} {rest : List Char}
    (hcur : cur.rest = e.sign.toList ++ (e.digits.chars ++ rest)) :
    (cur.rest.head? == some '-') = (e.sign == some '-') ∧
      (if cur.rest.head? == some '+' || cur.rest.head? == some '-' then cur.advance
        else cur).rest = e.digits.chars ++ rest := by
  obtain ⟨c, others, hc, -, hplus, hminus⟩ := e.digits.exists_cons
  cases hs : e.sign with
  | none =>
    rw [hs] at hcur
    have hhead : cur.rest.head? = some c := by rw [hcur, hc]; rfl
    rw [hhead]
    -- A digit is no sign, so nothing is passed.
    have hp : (some c == some '+') = false := by simpa using hplus
    have hm : (some c == some '-') = false := by simpa using hminus
    rw [hp, hm]
    exact ⟨rfl, hcur⟩
  | some s =>
    rw [hs] at hcur
    have hfirst : cur.rest = s :: (e.digits.chars ++ rest) := hcur
    have hhead : cur.rest.head? = some s := by rw [hfirst]; rfl
    have hsign : (some s == some '+' || some s == some '-') = true := by
      rcases e.isSign s hs with rfl | rfl <;> rfl
    rw [hhead, if_pos hsign]
    exact ⟨rfl, Cursor.rest_advance_of_eq hfirst⟩

/-- The exponent of a number is read. -/
theorem readExponent_comesTo (e : Exponent) (hrest : EndsDigits rest)
    (hcur : cur.rest = e.chars ++ rest) :
    ComesTo (readExponent negative word power cur) (e.value? negative word power) rest := by
  have hletter : cur.rest = e.letter :: (e.sign.toList ++ (e.digits.chars ++ rest)) := by
    rw [hcur, Exponent.chars, List.cons_append, List.append_assoc]
  obtain ⟨hsign, hdigits⟩ := e.sign_cases (Cursor.rest_advance_of_eq hletter)
  obtain ⟨c, others, hc, hdigit, -⟩ := e.digits.exists_cons
  rw [readExponent]
  dsimp only
  generalize (if cur.advance.rest.head? == some '+' || cur.advance.rest.head? == some '-'
    then cur.advance.advance else cur.advance) = start at hdigits ⊢
  have hfirst : start.rest = c :: (others ++ rest) := by rw [hdigits, hc, List.cons_append]
  have htake : start.rest.takeWhile Char.isDigit = e.digits.chars := by
    rw [hdigits, takeWhile_append e.digits.digit hrest]
  have hafter := e.digits.rest_advanceBy hdigits
  have hunsigned : (cur.advance.rest.head? != some '-') = (e.sign != some '-') := by
    rw [bne, bne, hsign]
  rw [htake, hsign, hunsigned, Exponent.value?]
  cases habsorb : absorbExponent 0 e.digits.chars with
  | mk exponent count =>
    rw [hfirst]
    simp only [hdigit, Bool.not_true, Bool.false_eq_true, if_false]
    by_cases hcount : count < e.digits.chars.length
    · -- The exponent is too large for a word, so the number is out of range, or a zero.
      rw [if_pos hcount, if_pos hcount]
      by_cases hlarge : (word != 0 && e.sign != some '-') = true
      · rw [if_pos hlarge, if_pos hlarge]
        exact ⟨.malformed .numberOutOfRange (Cursor.advanceBy (count + 1) start).here, rfl⟩
      · rw [if_neg hlarge, if_neg hlarge]
        exact ⟨_, rfl, hafter⟩
    · rw [if_neg hcount, if_neg hcount]
      exact floatOf_comesTo negative word _ hafter

/-- What follows the digits of a number is read. -/
theorem finishFloat_comesTo (exponent : Option Exponent) (hends : Ends rest)
    (hcur : cur.rest = exponentChars exponent ++ rest) :
    ComesTo (finishFloat negative word power cur) (exponentValue? negative word power exponent)
      rest := by
  cases exponent with
  | none =>
    have hcur : cur.rest = rest := hcur
    rw [finishFloat]
    -- What follows the number does not begin like an exponent.
    split
    · rename_i others hfirst
      exact absurd rfl (hends 'e' (by rw [← hcur, hfirst]; rfl)).2.2.1
    · rename_i others hfirst
      exact absurd rfl (hends 'E' (by rw [← hcur, hfirst]; rfl)).2.2.2
    · exact floatOf_comesTo negative word power hcur
  | some e =>
    have hread := readExponent_comesTo negative word power e hends.endsDigits hcur
    have hfirst : cur.rest = e.letter :: (e.sign.toList ++ e.digits.chars ++ rest) := hcur
    rw [finishFloat, hfirst]
    rcases e.isLetter with hletter | hletter
    · rw [hletter]
      exact hread
    · rw [hletter]
      exact hread

/-- No digit follows before an exponent. -/
theorem endsDigits_exponentChars (exponent : Option Exponent) (hends : Ends rest) :
    EndsDigits (exponentChars exponent ++ rest) := by
  cases exponent with
  | none => exact hends.endsDigits
  | some e =>
    rintro c hc
    obtain rfl : e.letter = c := Option.some.inj hc
    rcases e.isLetter with hletter | hletter <;> rw [hletter] <;> rfl

/-- The fraction of a number is read. -/
theorem readFraction_comesTo (digits : Digits) (exponent : Option Exponent) (hends : Ends rest)
    (hcur : cur.rest = '.' :: (digits.chars ++ (exponentChars exponent ++ rest))) :
    ComesTo (readFraction negative word power cur)
      (exponentValue? negative (absorb word digits.chars).1
        (power - (absorb word digits.chars).2) exponent) rest := by
  have hdigits := Cursor.rest_advance_of_eq hcur
  have htake : cur.advance.rest.takeWhile Char.isDigit = digits.chars := by
    rw [hdigits, takeWhile_append digits.digit (endsDigits_exponentChars exponent hends)]
  have hnone : digits.chars.isEmpty = false := by
    rw [List.isEmpty_eq_false_iff]
    exact digits.nonempty
  rw [readFraction]
  dsimp only
  rw [htake, hnone, if_neg Bool.false_ne_true]
  exact finishFloat_comesTo negative _ _ exponent hends (digits.rest_advanceBy hdigits)

end Numbers

/-- What follows the digits before the point. -/
def Numeral.tailChars (n : Numeral) : List Char :=
  fractionChars n.fraction ++ exponentChars n.exponent

theorem Numeral.endsDigits_tailChars (n : Numeral) {rest : List Char} (hends : Ends rest) :
    EndsDigits (n.tailChars ++ rest) := by
  rw [tailChars, List.append_assoc]
  cases n.fraction with
  | none => exact endsDigits_exponentChars n.exponent hends
  | some digits =>
    rintro c ⟨⟩
    rfl

/-- A leading zero is followed by no digit. -/
theorem Numeral.leading_eq_false (n : Numeral) {rest others : List Char} {c : Char}
    (hends : Ends rest) (hc : n.whole.chars = c :: others) :
    (c == '0' && (others ++ (n.tailChars ++ rest)).head?.any Char.isDigit) = false := by
  by_cases hzero : c = '0'
  · have hlength := n.leading (by rw [hc, hzero]; rfl)
    obtain rfl : others = [] := by
      rw [hc, List.length_cons] at hlength
      exact List.length_eq_zero_iff.mp (Nat.succ.inj hlength)
    have hends := n.endsDigits_tailChars hends
    rw [List.nil_append]
    cases hhead : (n.tailChars ++ rest).head? with
    | none => exact Bool.and_false _
    | some d => simp [hends d hhead]
  · simp [hzero]

/-- A number is read behind its sign. -/
theorem readMagnitude_comesTo (n : Numeral) {cur : Cursor} {rest : List Char} (hends : Ends rest)
    (hcur : cur.rest = n.magnitudeChars ++ rest) :
    ComesTo (readMagnitude n.minus cur) n.value? rest := by
  obtain ⟨c, others, hc, hdigit, -⟩ := n.whole.exists_cons
  have hcur : cur.rest = n.whole.chars ++ (n.tailChars ++ rest) := by
    rw [hcur, Numeral.magnitudeChars, List.append_assoc]
    rfl
  have hfirst : cur.rest = c :: (others ++ (n.tailChars ++ rest)) := by
    rw [hcur, hc, List.cons_append]
  have htake : cur.rest.takeWhile Char.isDigit = n.whole.chars := by
    rw [hcur, takeWhile_append n.whole.digit (n.endsDigits_tailChars hends)]
  have hafter := n.whole.rest_advanceBy hcur
  rw [readMagnitude, htake]
  rw [hfirst]
  simp only [hdigit, n.leading_eq_false hends hc, Bool.not_true, Bool.false_eq_true, if_false]
  rw [Numeral.value?]
  generalize Cursor.advanceBy n.whole.chars.length cur = after at hafter ⊢
  cases absorb 0 n.whole.chars with
  | mk word count =>
    rw [Numeral.tailChars, List.append_assoc] at hafter
    dsimp only
    cases hf : n.fraction with
    | some digits =>
      rw [hf] at hafter
      have hpoint : after.rest = '.' :: (digits.chars ++ (exponentChars n.exponent ++ rest)) :=
        hafter
      rw [hpoint]
      exact readFraction_comesTo _ _ _ digits n.exponent hends hpoint
    | none =>
      rw [hf] at hafter
      cases he : n.exponent with
      | some e =>
        rw [he] at hafter
        have hread := readExponent_comesTo n.minus word
          ((n.whole.chars.length - count : Nat) : Int) e hends.endsDigits hafter
        have hletter : after.rest = e.letter :: (e.sign.toList ++ e.digits.chars ++ rest) := hafter
        rw [hletter]
        rcases e.isLetter with hl | hl
        · rw [hl]
          exact hread
        · rw [hl]
          exact hread
      | none =>
        rw [he] at hafter
        have hrest : after.rest = rest := hafter
        -- What follows neither begins a fraction nor an exponent.
        split
        · rename_i others hpoint
          exact absurd rfl (hends '.' (by rw [← hrest, hpoint]; rfl)).2.1
        · rename_i others hletter
          exact absurd rfl (hends 'e' (by rw [← hrest, hletter]; rfl)).2.2.1
        · rename_i others hletter
          exact absurd rfl (hends 'E' (by rw [← hrest, hletter]; rfl)).2.2.2
        · split
          · exact ⟨after, rfl, hrest⟩
          · exact floatOf_comesTo n.minus word _ hrest

/-- **Numbers** are read as what they stand for. -/
theorem reads_numeral (n : Numeral) : Reads readNumber n.chars n.value? := by
  intro cur rest hends hcur
  have hread : ∀ start : Cursor, start.rest = n.magnitudeChars ++ rest →
      ComesTo (readMagnitude n.minus start) n.value? rest :=
    fun _ => readMagnitude_comesTo n hends
  rw [Numeral.chars] at hcur
  rw [readNumber]
  cases hm : n.minus with
  | true =>
    rw [hm, if_pos rfl] at hcur
    have hfirst : cur.rest = '-' :: (n.magnitudeChars ++ rest) := hcur
    rw [hm] at hread
    rw [hfirst]
    exact hread _ (Cursor.rest_advance_of_eq hfirst)
  | false =>
    rw [hm, if_neg Bool.false_ne_true] at hcur
    obtain ⟨c, others, hc, -, -, hminus⟩ := n.whole.exists_cons
    rw [hm] at hread
    -- The first digit is no minus.
    split
    · rename_i more hfirst
      rw [hcur, Numeral.magnitudeChars, hc] at hfirst
      exact absurd (List.cons.inj hfirst).1 hminus
    · exact hread _ hcur

end DocRelay.Json
