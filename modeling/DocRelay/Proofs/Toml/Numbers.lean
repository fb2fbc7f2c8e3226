import DocRelay.Proofs.Json.Tokens
import DocRelay.Proofs.Number.Shortest
import DocRelay.Toml.Print
import DocRelay.Toml.Read

namespace DocRelay.Toml

/-!
# Reading written numbers

An integer is written in decimal digits, a floating-point number as its shortest decimal with all
digits in their places and at least one on either side of the point.  Neither can be taken for a
date or for the other, and both are read back as they were.

* `Stops` — what may follow a written value;
* `readDigits_append`, `digitsIn_ten` — digits and what they spell;
* `readDateTime_eq_none` — a number is no date;
* `readFloat_whole`, `readSpecial_number`, `readInteger_toDigits` — an integer is nothing else;
* `readNumeral_renderInt`, `readNumeral_renderFloat` — written numbers.
-/

/-- The character ends a value: a line end, a comma, a blank or a closing bracket. -/
def isStop (c : Char) : Bool :=
  c == '\n' || c == ',' || c == ' ' || c == ']'

/-- Nothing follows a value, or a character that ends it. -/
def Stops (rest : List Char) : Prop :=
  ∀ c ∈ rest.head?, isStop c = true

/-! ### Digits -/

/-- The code points of the decimal digits. -/
theorem bounds_of_isDigit {c : Char} (h : c.isDigit = true) : 48 ≤ c.toNat ∧ c.toNat ≤ 57 := by
  rw [Char.isDigit, Bool.and_eq_true, decide_eq_true_eq, decide_eq_true_eq] at h
  exact ⟨UInt32.le_iff_toNat_le.mp h.1, UInt32.le_iff_toNat_le.mp h.2⟩

/-- Decimal digits spell a number. -/
theorem digitsIn_ten {digits : List Char} (h : ∀ c ∈ digits, c.isDigit = true) :
    digitsIn 10 digits = some (Nat.ofDigitChars 10 digits 0) := by
  -- The fold spells the digits behind a number that is already read.
  have hgrow : ∀ (digits : List Char) (n : Nat), (∀ c ∈ digits, c.isDigit = true) →
      digits.foldl (fun acc c => do
        let d ← hexDigit? c
        if d < 10 then return (← acc) * 10 + d else none) (some n)
        = some (Nat.ofDigitChars 10 digits n) := by
    intro digits
    induction digits with
    | nil => exact fun n _ => rfl
    | cons c others ih =>
      intro n hall
      have hc : c.isDigit = true := hall c List.mem_cons_self
      have hbounds := bounds_of_isDigit hc
      have hvalue : hexDigit? c = some (c.toNat - 48) := by
        rw [hexDigit?, if_pos hc]
      have hstep : (do
          let d ← hexDigit? c
          if d < 10 then return (← some n) * 10 + d else none)
          = some (10 * n + (c.toNat - '0'.toNat)) := by
        rw [hvalue, Nat.mul_comm 10]
        exact if_pos (by omega)
      rw [List.foldl_cons, hstep, Nat.ofDigitChars_cons]
      exact ih _ fun d hd => hall d (List.mem_cons_of_mem _ hd)
  exact hgrow digits 0 h

/-- Digits are read up to something that is neither a digit nor an underscore. -/
theorem readDigits_append {p : Char → Bool} {digits rest : List Char} {needed : Bool}
    (h : ∀ c ∈ digits, p c = true) (hne : needed = true → digits ≠ [])
    (hrest : ∀ c ∈ rest.head?, p c = false ∧ c ≠ '_') :
    readDigits p needed (digits ++ rest) = some (digits, rest) := by
  induction digits generalizing needed with
  | nil =>
    have hneeded : needed = false := by
      cases needed with
      | false => rfl
      | true => exact absurd rfl (hne rfl)
    subst hneeded
    cases rest with
    | nil => rfl
    | cons c others =>
      obtain ⟨hp, hunder⟩ := hrest c rfl
      simp [readDigits, hp, hunder]
  | cons c others ih =>
    have hrec : readDigits p false (others ++ rest) = some (others, rest) :=
      ih (fun d hd => h d (List.mem_cons_of_mem _ hd)) (fun h => absurd h Bool.false_ne_true)
    rw [List.cons_append, readDigits, if_pos (h c List.mem_cons_self), hrec]
    rfl

/-! ### Numbers are no dates -/

/-- Digits of a fixed number stand at the front. -/
theorem exists_of_readFixed {count n : Nat} {cs rest : List Char}
    (h : readFixed count cs = some (n, rest)) :
    rest = cs.drop count ∧ count ≤ cs.length ∧ ∀ c ∈ cs.take count, c.isDigit = true := by
  rw [readFixed] at h
  split at h
  · rename_i hdigits
    rw [Bool.and_eq_true, beq_iff_eq, List.length_take, List.all_eq_true] at hdigits
    obtain ⟨value, -, hvalue⟩ := Option.bind_eq_some_iff.mp h
    refine ⟨?_, by omega, hdigits.2⟩
    exact (Prod.mk.inj (Option.some.inj hvalue)).2.symm
  · cases h

theorem expect_eq_none {mark : Char} {cs : List Char} (h : ∀ c ∈ cs.head?, c ≠ mark) :
    expect mark cs = none := by
  cases cs with
  | nil => rfl
  | cons c rest => exact if_neg fun he => h c rfl (beq_iff_eq.mp he)

/-- Behind a fixed number of digits stands another digit, or what ends the digits: no mark. -/
theorem expect_of_readFixed {count n : Nat} {digits rest after : List Char} {mark : Char}
    (hmark : mark.isDigit = false) (hdigits : ∀ c ∈ digits, c.isDigit = true)
    (hrest : ∀ c ∈ rest.head?, c.isDigit = false ∧ c ≠ mark)
    (hfixed : readFixed count (digits ++ rest) = some (n, after)) : expect mark after = none := by
  obtain ⟨rfl, hlength, hall⟩ := exists_of_readFixed hfixed
  refine expect_eq_none fun c hc => ?_
  rw [List.head?_drop] at hc
  rcases Nat.lt_trichotomy count digits.length with hlt | rfl | hgt
  · rw [List.getElem?_append_left hlt] at hc
    rintro rfl
    exact absurd (hdigits c (List.mem_of_getElem? hc)) (by simp [hmark])
  · rw [List.getElem?_append_right (Nat.le_refl _), Nat.sub_self, ← List.head?_eq_getElem?] at hc
    exact (hrest c hc).2
  · -- More digits were read than there are.
    cases rest with
    | nil =>
      rw [List.append_nil] at hlength
      exact absurd hlength (Nat.not_le_of_lt hgt)
    | cons d others =>
      have hd : d ∈ (digits ++ d :: others).take count := by
        obtain ⟨k, rfl⟩ := Nat.exists_eq_add_of_lt hgt
        rw [List.take_append, Nat.add_assoc, Nat.add_sub_cancel_left, List.take_succ_cons]
        exact List.mem_append_right _ List.mem_cons_self
      exact absurd (hall d hd) (by simp [(hrest d rfl).1])

/-- Neither a date nor a time stands where no mark is behind its first number. -/
theorem readDateTime_of_unmarked {cs : List Char}
    (hdate : ∀ {n after}, readFixed 4 cs = some (n, after) → expect '-' after = none)
    (htime : ∀ {n after}, readFixed 2 cs = some (n, after) → expect ':' after = none) :
    readDateTime cs = none := by
  -- A date begins with a year and a dash, a time with an hour and a colon.
  have hnoDate : readDate cs = none := by
    rw [readDate]
    cases hfixed : readFixed 4 cs with
    | none => rfl
    | some parts =>
      simp only [Option.bind_eq_bind, Option.bind_some, hdate hfixed]
      rfl
  have hnoTime : readTime cs = none := by
    rw [readTime]
    cases hfixed : readFixed 2 cs with
    | none => rfl
    | some parts =>
      simp only [Option.bind_eq_bind, Option.bind_some, htime hfixed]
      rfl
  rw [readDateTime, hnoDate, hnoTime]
  rfl

/-- **A number is no date.** Digits with something else than a dash or a colon behind them begin
    neither a date nor a time. -/
theorem readDateTime_eq_none {digits rest : List Char} (hdigits : ∀ c ∈ digits, c.isDigit = true)
    (hrest : ∀ c ∈ rest.head?, c.isDigit = false ∧ c ≠ '-' ∧ c ≠ ':') :
    readDateTime (digits ++ rest) = none :=
  readDateTime_of_unmarked
    (expect_of_readFixed (by decide) hdigits fun c hc => ⟨(hrest c hc).1, (hrest c hc).2.1⟩)
    (expect_of_readFixed (by decide) hdigits fun c hc => ⟨(hrest c hc).1, (hrest c hc).2.2⟩)

/-- A dash begins no date. -/
theorem readDateTime_dash (rest : List Char) : readDateTime ('-' :: rest) = none := by
  have hnone : ∀ {count n : Nat} {after : List Char},
      0 < count → readFixed count ('-' :: rest) ≠ some (n, after) := by
    intro count n after hcount hfixed
    obtain ⟨-, -, hall⟩ := exists_of_readFixed hfixed
    obtain ⟨k, rfl⟩ := Nat.exists_eq_succ_of_ne_zero hcount.ne'
    exact absurd (hall '-' List.mem_cons_self) (by decide)
  exact readDateTime_of_unmarked (fun hfixed => absurd hfixed (hnone (by decide)))
    fun hfixed => absurd hfixed (hnone (by decide))

/-! ### Signs and whole parts -/

/-- The sign of a number, as it is written. -/
def signChars (negative : Bool) : List Char :=
  if negative then ['-'] else []

/-- Digits as they are written before a point: no zero stands before another digit. -/
def IsWhole (digits : List Char) : Prop :=
  (∀ c ∈ digits, c.isDigit = true) ∧ digits ≠ [] ∧ (digits.head? = some '0' → digits = ['0'])

/-- The digits of a number are a whole part. -/
theorem isWhole_toDigits (n : Nat) : IsWhole (Nat.toDigits 10 n) := by
  refine ⟨fun c hc => Nat.isDigit_of_mem_toDigits (by omega) (Nat.le_refl 10) hc,
    Nat.toDigits_ne_nil, fun hhead => ?_⟩
  by_cases hn : n = 0
  · rw [hn, Nat.toDigits_zero]
  · exact absurd hhead (Json.head_toDigits_ne_zero hn)

/-- A written sign is read. -/
theorem readSign_signChars (negative : Bool) {digits : List Char} (h : IsWhole digits)
    (rest : List Char) :
    readSign (signChars negative ++ (digits ++ rest)) = (negative, digits ++ rest) := by
  cases negative with
  | true => rfl
  | false =>
    obtain ⟨hdigits, hne, -⟩ := h
    obtain ⟨c, others, rfl⟩ := List.exists_cons_of_ne_nil hne
    have hc : c.isDigit = true := hdigits c List.mem_cons_self
    show readSign (c :: (others ++ rest)) = _
    rw [readSign]
    · rfl
    · rintro after he
      rw [(List.cons.inj he).1] at hc
      cases hc
    · rintro after he
      rw [(List.cons.inj he).1] at hc
      cases hc

/-- A written whole part is read. -/
theorem readDecimalDigits_append {digits rest : List Char} (h : IsWhole digits)
    (hrest : ∀ c ∈ rest.head?, c.isDigit = false ∧ c ≠ '_') :
    readDecimalDigits (digits ++ rest) = some (digits, rest) := by
  obtain ⟨hdigits, hne, hzero⟩ := h
  by_cases hhead : digits.head? = some '0'
  · rw [hzero hhead]
    rfl
  · obtain ⟨c, others, rfl⟩ := List.exists_cons_of_ne_nil hne
    have hc : c ≠ '0' := fun he => hhead (he ▸ rfl)
    rw [List.cons_append, readDecimalDigits]
    · exact readDigits_append hdigits (fun _ => hne) hrest
    · exact fun after he => hc (List.cons.inj he).1

/-- A number with a sign is no date either. -/
theorem readDateTime_number (negative : Bool) {digits rest : List Char} (h : IsWhole digits)
    (hrest : ∀ c ∈ rest.head?, c.isDigit = false ∧ c ≠ '-' ∧ c ≠ ':') :
    readDateTime (signChars negative ++ (digits ++ rest)) = none := by
  cases negative with
  | true => exact readDateTime_dash _
  | false =>
    rw [signChars, if_neg Bool.false_ne_true, List.nil_append]
    exact readDateTime_eq_none h.1 hrest

/-! ### Integers -/

/-- The integers of 64 bits with a sign. -/
def IsSigned64 (n : Int) : Prop :=
  -0x8000000000000000 ≤ n ∧ n < 0x8000000000000000

/-- What ends a value is no part of a number. -/
theorem Stops.ne {rest : List Char} (h : Stops rest) :
    ∀ c ∈ rest.head?, c.isDigit = false ∧ c ≠ '_' ∧ c ≠ '-' ∧ c ≠ ':' ∧ c ≠ '.' ∧ c ≠ 'e' ∧ c ≠ 'E'
      ∧ c ≠ 'x' ∧ c ≠ 'o' ∧ c ≠ 'b' := by
  intro c hc
  have hstop := h c hc
  rw [isStop] at hstop
  simp only [Bool.or_eq_true, beq_iff_eq] at hstop
  obtain ((rfl | rfl) | rfl) | rfl := hstop <;> decide

/-- No exponent stands where a value ends. -/
theorem readExponent_of_stops {rest : List Char} (h : Stops rest) :
    readExponent rest = some (none, rest) := by
  have hstops := h.ne
  rw [readExponent]
  · rintro after rfl
    exact absurd rfl (hstops 'e' rfl).2.2.2.2.2.1
  · rintro after rfl
    exact absurd rfl (hstops 'E' rfl).2.2.2.2.2.2.1

/-- A number is in base ten if no mark of another base stands behind its first zero. -/
theorem signChars_append_ne (negative : Bool) {digits rest : List Char} (h : IsWhole digits)
    {mark : Char} (hrest : ∀ c ∈ rest.head?, c ≠ mark)
    (others : List Char) : signChars negative ++ (digits ++ rest) ≠ '0' :: mark :: others := by
  intro he
  cases negative with
  | true => cases he
  | false =>
    obtain ⟨hdigits, hne, hzero⟩ := h
    obtain ⟨c, more, rfl⟩ := List.exists_cons_of_ne_nil hne
    obtain ⟨rfl, hmore⟩ : c = '0' ∧ more ++ rest = mark :: others := List.cons.inj he
    obtain rfl : more = [] := (List.cons.inj (hzero rfl)).2
    rw [List.nil_append] at hmore
    subst hmore
    exact hrest mark rfl rfl

theorem renderInt_eq (n : Int) :
    Json.renderInt n = signChars (decide (n < 0)) ++ Nat.toDigits 10 n.natAbs := by
  rw [Json.renderInt, signChars]
  by_cases hn : n < 0 <;> simp [hn]

/-- Digits with neither a point nor an exponent behind them are no floating-point number. -/
theorem readFloat_whole (negative : Bool) {digits rest : List Char} (h : IsWhole digits)
    (hrest : Stops rest) : readFloat (signChars negative ++ (digits ++ rest)) = none := by
  have hstops := hrest.ne
  rw [readFloat, readSign_signChars negative h]
  dsimp only
  rw [readDecimalDigits_append h fun c hc => ⟨(hstops c hc).1, (hstops c hc).2.1⟩]
  simp only [Option.bind_eq_bind, Option.bind_some]
  split
  · rename_i after
    exact absurd rfl (hstops '.' rfl).2.2.2.2.1
  · rw [readExponent_of_stops hrest]
    rfl

/-- Digits are neither an infinity nor a NaN. -/
theorem readSpecial_number (negative : Bool) {digits : List Char} (h : IsWhole digits)
    (rest : List Char) : readSpecial (signChars negative ++ (digits ++ rest)) = none := by
  rw [readSpecial, readSign_signChars negative h]
  obtain ⟨hall, hne, -⟩ := h
  obtain ⟨c, others, rfl⟩ := List.exists_cons_of_ne_nil hne
  have hc : c.isDigit = true := hall c List.mem_cons_self
  dsimp only [List.cons_append]
  split
  · rename_i hfirst
    rw [(List.cons.inj hfirst).1] at hc
    exact absurd hc (by decide)
  · rename_i hfirst
    rw [(List.cons.inj hfirst).1] at hc
    exact absurd hc (by decide)
  · rfl

/-- The digits of an integer of 64 bits, with its sign, are read as the integer. -/
theorem readInteger_toDigits {n : Int} (h : IsSigned64 n) {rest : List Char} (hrest : Stops rest) :
    readInteger (signChars (decide (n < 0)) ++ (Nat.toDigits 10 n.natAbs ++ rest))
      = some (.int n, rest) := by
  have hstops := hrest.ne
  have hwhole := isWhole_toDigits n.natAbs
  have hdigits : readDecimalDigits (Nat.toDigits 10 n.natAbs ++ rest)
      = some (Nat.toDigits 10 n.natAbs, rest) :=
    readDecimalDigits_append hwhole fun c hc => ⟨(hstops c hc).1, (hstops c hc).2.1⟩
  have hvalue : (if decide (n < 0) = true then -(n.natAbs : Int) else n.natAbs) = n := by
    split
    · rename_i hn
      have := of_decide_eq_true hn
      omega
    · rename_i hn
      have := of_decide_eq_false (Bool.eq_false_iff.mpr hn)
      omega
  have hrange : (decide (-0x8000000000000000 ≤ n) && decide (n < 0x8000000000000000)) = true := by
    rw [decide_eq_true h.1, decide_eq_true h.2]
    rfl
  rw [readInteger]
  · rw [readSign_signChars _ hwhole]
    dsimp only
    rw [hdigits]
    simp only [Option.bind_eq_bind, Option.bind_some]
    rw [digitsIn_ten hwhole.1, Nat.ofDigitChars_ten_toDigits]
    simp only [Option.bind_some]
    rw [hvalue, signed64?, if_pos hrange]
    rfl
  · exact signChars_append_ne _ hwhole fun c hc => (hstops c hc).2.2.2.2.2.2.2.1
  · exact signChars_append_ne _ hwhole fun c hc => (hstops c hc).2.2.2.2.2.2.2.2.1
  · exact signChars_append_ne _ hwhole fun c hc => (hstops c hc).2.2.2.2.2.2.2.2.2

/-- **A written integer is read back**, as what it is and as nothing else. -/
theorem readNumeral_renderInt {n : Int} (h : IsSigned64 n) {rest : List Char}
    (hrest : Stops rest) : readNumeral (Json.renderInt n ++ rest) = some (.int n, rest) := by
  have hstops := hrest.ne
  have hwhole := isWhole_toDigits n.natAbs
  have hdate := readDateTime_number (decide (n < 0)) hwhole fun c hc =>
    ⟨(hstops c hc).1, (hstops c hc).2.2.1, (hstops c hc).2.2.2.1⟩
  rw [renderInt_eq, List.append_assoc, readNumeral, hdate, readFloat_whole _ hwhole hrest,
    readSpecial_number _ hwhole, readInteger_toDigits h hrest]
  rfl

/-! ### Floating-point numbers -/

/-- Digits spell less than the power of ten of their number. -/
theorem ofDigitChars_lt {digits : List Char} (h : ∀ c ∈ digits, c.isDigit = true) :
    Nat.ofDigitChars 10 digits 0 < 10 ^ digits.length := by
  induction digits with
  | nil => exact Nat.one_pos
  | cons c others ih =>
    have hbounds := bounds_of_isDigit (h c List.mem_cons_self)
    have hothers := ih fun d hd => h d (List.mem_cons_of_mem _ hd)
    have hdigit : c.toNat - '0'.toNat ≤ 9 := by
      show c.toNat - 48 ≤ 9
      omega
    rw [Nat.ofDigitChars_cons, Nat.ofDigitChars_eq_ofDigitChars_zero, List.length_cons, pow_succ]
    have : 10 ^ others.length * (10 * 0 + (c.toNat - '0'.toNat)) ≤ 10 ^ others.length * 9 :=
      Nat.mul_le_mul_left _ (by omega)
    omega

/-- The significant digits of a number tell its size. -/
theorem bounds_ofDigitChars {digits : List Char} (h : ∀ c ∈ digits, c.isDigit = true)
    (hpos : 0 < Nat.ofDigitChars 10 digits 0) :
    Nat.ofDigitChars 10 digits 0 < 10 ^ (digits.dropWhile (· == '0')).length ∧
      10 ^ (digits.dropWhile (· == '0')).length ≤ 10 * Nat.ofDigitChars 10 digits 0 := by
  induction digits with
  | nil => cases hpos
  | cons c others ih =>
    by_cases hzero : c = '0'
    · -- A leading zero spells nothing.
      subst hzero
      exact ih (fun d hd => h d (List.mem_cons_of_mem _ hd)) hpos
    · have hbounds := bounds_of_isDigit (h c List.mem_cons_self)
      have hne : c.toNat ≠ 48 := fun he => hzero (Char.toNat_inj.mp he)
      have hdigit : 1 ≤ c.toNat - '0'.toNat := by
        show 1 ≤ c.toNat - 48
        omega
      rw [List.dropWhile_cons_of_neg (by simpa using hzero)]
      refine ⟨ofDigitChars_lt h, ?_⟩
      rw [Nat.ofDigitChars_cons, Nat.ofDigitChars_eq_ofDigitChars_zero, List.length_cons, pow_succ]
      have : 10 ^ others.length * 1 ≤ 10 ^ others.length * (10 * 0 + (c.toNat - '0'.toNat)) :=
        Nat.mul_le_mul_left _ (by omega)
      omega

/-- A decimal in the interval of a number is read as the number. -/
theorem decimalValue_eq {x : Binary64} (hfinite : x.isFinite = true) (hzero : x.isZero = false)
    {coefficient digits : Nat} {power : Int} (hpos : 0 < coefficient)
    (hlow : coefficient < 10 ^ digits) (hhigh : 10 ^ digits ≤ 10 * coefficient)
    (h : x.interval.Contains (coefficient * 10 ^ power)) (negative : Bool) :
    decimalValue negative coefficient digits power
      = Binary64.ofMagnitude negative x.magnitude := by
  obtain ⟨hleast, hgreatest⟩ := Binary64.bounds_of_contains hfinite hzero h
  have hpower : (0 : ℚ) < 10 ^ power := by positivity
  have hplace : (10 : ℚ) ^ ((digits : Int) + power) = ((10 ^ digits : Nat) : ℚ) * 10 ^ power := by
    rw [zpow_add₀ (by norm_num), zpow_natCast, Nat.cast_pow]
    rfl
  -- The number is finite and not zero, so the place of the first digit is within the bounds: the
  -- decimal is taken neither for an infinity nor for a zero.
  have hlarge : (digits : Int) + power < 310 := by
    refine (zpow_lt_zpow_iff_right₀ (show (1 : ℚ) < 10 by norm_num)).mp ?_
    calc (10 : ℚ) ^ ((digits : Int) + power) = ((10 ^ digits : Nat) : ℚ) * 10 ^ power := hplace
      _ ≤ ((10 * coefficient : Nat) : ℚ) * 10 ^ power :=
          mul_le_mul_of_nonneg_right (Nat.cast_le.mpr hhigh) hpower.le
      _ = 10 * (coefficient * 10 ^ power) := by
          rw [Nat.cast_mul, mul_assoc]
          rfl
      _ < 10 * 10 ^ (309 : Int) := mul_lt_mul_of_pos_left hgreatest (by norm_num)
      _ = 10 ^ (310 : Int) := by
          rw [← zpow_one_add₀ (by norm_num)]
          rfl
  have hsmall : -330 < (digits : Int) + power := by
    refine (zpow_lt_zpow_iff_right₀ (show (1 : ℚ) < 10 by norm_num)).mp ?_
    calc (10 : ℚ) ^ (-330 : Int) < coefficient * 10 ^ power := hleast
      _ ≤ ((10 ^ digits : Nat) : ℚ) * 10 ^ power :=
          mul_le_mul_of_nonneg_right (Nat.cast_le.mpr hlow.le) hpower.le
      _ = 10 ^ ((digits : Int) + power) := hplace.symm
  have hne : ¬(coefficient == 0) = true := by simpa using hpos.ne'
  rw [decimalValue, if_neg hne, if_neg (by omega), if_neg (by omega)]
  exact Binary64.ofDecimal_eq hfinite hpos h negative

/-- **Digits around a point** are read as the number that they spell. -/
theorem readFloat_digits (negative : Bool) {whole fraction rest : List Char}
    (hwhole : IsWhole whole) (hfraction : ∀ c ∈ fraction, c.isDigit = true) (hne : fraction ≠ [])
    (hrest : Stops rest) {x : Binary64} (hfinite : x.isFinite = true)
    (hx : decimalValue negative (Nat.ofDigitChars 10 (whole ++ fraction) 0)
      ((whole ++ fraction).dropWhile (· == '0')).length (0 - fraction.length) = x) :
    readFloat (signChars negative ++ (whole ++ '.' :: (fraction ++ rest)))
      = some (.float x, rest) := by
  have hstops := hrest.ne
  have hsign := readSign_signChars negative hwhole ('.' :: (fraction ++ rest))
  have hdigits : readDecimalDigits (whole ++ '.' :: (fraction ++ rest))
      = some (whole, '.' :: (fraction ++ rest)) := by
    refine readDecimalDigits_append hwhole fun c hc => ?_
    obtain rfl : '.' = c := Option.some.inj hc
    decide
  have hbehind : readDigits Char.isDigit true (fraction ++ rest) = some (fraction, rest) :=
    readDigits_append hfraction (fun _ => hne) fun c hc => ⟨(hstops c hc).1, (hstops c hc).2.1⟩
  have hall : ∀ c ∈ whole ++ fraction, c.isDigit = true := fun c hc =>
    (List.mem_append.mp hc).elim (hwhole.1 c) (hfraction c)
  have hnotEmpty : fraction.isEmpty = false := by simpa using hne
  -- The parts are read one after the other, and there is no exponent behind them.
  rw [readFloat, hsign]
  dsimp only
  rw [hdigits]
  simp only [Option.bind_eq_bind, Option.bind_some]
  rw [hbehind]
  simp only [Option.bind_some]
  rw [readExponent_of_stops hrest]
  simp only [Option.bind_some, hnotEmpty, Bool.false_and, Bool.false_eq_true, if_false]
  rw [digitsIn_ten hall]
  simp only [Option.bind_some, Option.getD_none]
  rw [hx, hfinite]
  rfl

/-- The number that digits around a point spell. -/
def spelled (whole fraction : List Char) : ℚ :=
  Nat.ofDigitChars 10 (whole ++ fraction) 0 * 10 ^ (0 - fraction.length : Int)

/-- Only digits of a positive number spell one. -/
theorem pos_of_spelled {whole fraction : List Char} (h : 0 < spelled whole fraction) :
    0 < Nat.ofDigitChars 10 (whole ++ fraction) 0 := by
  refine Nat.pos_of_ne_zero fun hzero => ?_
  rw [spelled, hzero, Nat.cast_zero, zero_mul] at h
  exact lt_irrefl 0 h

/-- Digits in front of the point, and zeros behind them. -/
theorem spelled_append_zeros (digits : List Char) (k : Nat) :
    spelled (digits ++ List.replicate k '0') ['0']
      = Nat.ofDigitChars 10 digits 0 * 10 ^ (k : Int) := by
  have hvalue : Nat.ofDigitChars 10 ((digits ++ List.replicate k '0') ++ ['0']) 0
      = 10 ^ k * Nat.ofDigitChars 10 digits 0 * 10 := by
    rw [Nat.ofDigitChars_append, Nat.ofDigitChars_append, Nat.ofDigitChars_replicate_zero,
      Nat.ofDigitChars_cons, Nat.ofDigitChars_nil]
    simp
    ring
  rw [spelled, hvalue, zpow_natCast]
  push_cast
  norm_num
  ring

/-- Digits on either side of the point. -/
theorem spelled_take_drop (digits : List Char) {place : Nat} (h : place ≤ digits.length) :
    spelled (digits.take place) (digits.drop place)
      = Nat.ofDigitChars 10 digits 0 * 10 ^ (place - digits.length : Int) := by
  rw [spelled, List.take_append_drop, List.length_drop]
  congr 2
  omega

/-- Digits behind the point, and zeros in front of them. -/
theorem spelled_zeros_append (digits : List Char) (k : Nat) :
    spelled ['0'] (List.replicate k '0' ++ digits)
      = Nat.ofDigitChars 10 digits 0 * 10 ^ (-(k + digits.length) : Int) := by
  have hvalue : Nat.ofDigitChars 10 (['0'] ++ (List.replicate k '0' ++ digits)) 0
      = Nat.ofDigitChars 10 digits 0 := by
    rw [Nat.ofDigitChars_append, Nat.ofDigitChars_append, Nat.ofDigitChars_cons,
      Nat.ofDigitChars_nil, Nat.ofDigitChars_replicate_zero]
    rfl
  rw [spelled, hvalue, List.length_append, List.length_replicate]
  congr 2
  omega

/-- **Digits in their places** stand around a point and spell the number. -/
theorem exists_inPlace {coefficient : Nat} (hpos : 0 < coefficient) (power : Int) :
    ∃ whole fraction, IsWhole whole ∧ (∀ c ∈ fraction, c.isDigit = true) ∧ fraction ≠ [] ∧
      Layout.inPlace (Nat.toDigits 10 coefficient)
        ((Nat.toDigits 10 coefficient).length + power) = whole ++ '.' :: fraction ∧
      0 < Nat.ofDigitChars 10 (whole ++ fraction) 0 ∧
      spelled whole fraction = coefficient * 10 ^ power := by
  obtain ⟨hdigits, hne, hzero⟩ := isWhole_toDigits coefficient
  have hhead : (Nat.toDigits 10 coefficient).head? ≠ some '0' :=
    Json.head_toDigits_ne_zero hpos.ne'
  have hvalue : Nat.ofDigitChars 10 (Nat.toDigits 10 coefficient) 0 = coefficient :=
    Nat.ofDigitChars_ten_toDigits
  generalize Nat.toDigits 10 coefficient = digits at *
  have hzeros : ∀ {k : Nat}, ∀ c ∈ List.replicate k '0', c.isDigit = true := by
    intro k c hc
    rw [(List.mem_replicate.mp hc).2]
    decide
  have hlength : 0 < digits.length := List.length_pos_iff.mpr hne
  -- The digits spell a positive number wherever the point stands.
  suffices h : ∃ whole fraction, IsWhole whole ∧ (∀ c ∈ fraction, c.isDigit = true) ∧
      fraction ≠ [] ∧ Layout.inPlace digits (digits.length + power) = whole ++ '.' :: fraction ∧
      spelled whole fraction = coefficient * 10 ^ power by
    obtain ⟨whole, fraction, hwhole, hfraction, hthere, hchars, hspelled⟩ := h
    have hpositive : 0 < spelled whole fraction := by
      rw [hspelled]
      positivity
    exact ⟨whole, fraction, hwhole, hfraction, hthere, hchars, pos_of_spelled hpositive, hspelled⟩
  rw [Layout.inPlace, ← hvalue]
  split
  · -- Zeros follow the digits.
    rename_i hplace
    obtain ⟨k, rfl⟩ := Int.eq_ofNat_of_zero_le (show 0 ≤ power by omega)
    have hk : ((digits.length : Int) + k - digits.length).toNat = k := by omega
    refine ⟨digits ++ List.replicate k '0', ['0'], ⟨?_, by simp [hne], ?_⟩,
      List.forall_mem_singleton.mpr (by decide), by simp, by rw [hk],
      spelled_append_zeros digits k⟩
    · exact fun c hc => (List.mem_append.mp hc).elim (hdigits c) (hzeros c)
    · rw [List.head?_append_of_ne_nil _ hne]
      exact fun h => absurd h hhead
  · split
    · -- The point stands among the digits.
      rename_i hplace hpoint
      refine ⟨digits.take (digits.length + power).toNat, digits.drop (digits.length + power).toNat,
        ⟨fun c hc => hdigits c (List.mem_of_mem_take hc), ?_, ?_⟩,
        fun c hc => hdigits c (List.mem_of_mem_drop hc), ?_, rfl, ?_⟩
      · refine List.ne_nil_of_length_pos ?_
        rw [List.length_take]
        omega
      · rw [List.head?_take, if_neg (by omega)]
        exact fun h => absurd h hhead
      · refine List.ne_nil_of_length_pos ?_
        rw [List.length_drop]
        omega
      · rw [spelled_take_drop digits (by omega)]
        congr 2
        omega
    · -- Zeros stand between the point and the digits.
      rename_i hplace hpoint
      refine ⟨['0'], List.replicate (-((digits.length : Int) + power)).toNat '0' ++ digits,
        ⟨List.forall_mem_singleton.mpr (by decide), by simp, fun _ => rfl⟩,
        fun c hc => (List.mem_append.mp hc).elim (hzeros c) (hdigits c), by simp [hne], rfl, ?_⟩
      rw [spelled_zeros_append]
      congr 2
      omega

/-- A floating-point number is written as digits around a point that are read as the number. -/
theorem exists_renderFloat {x : Binary64} (hfinite : x.isFinite = true) :
    ∃ whole fraction, IsWhole whole ∧ (∀ c ∈ fraction, c.isDigit = true) ∧ fraction ≠ [] ∧
      renderFloat x = signChars x.isNegative ++ (whole ++ '.' :: fraction) ∧
      decimalValue x.isNegative (Nat.ofDigitChars 10 (whole ++ fraction) 0)
        ((whole ++ fraction).dropWhile (· == '0')).length (0 - fraction.length) = x := by
  rw [renderFloat, Layout.render]
  by_cases hzero : x.isZero = true
  · -- A zero is written with its sign, which its magnitude does not tell.
    have hdigit : ∀ c ∈ ['0'], c.isDigit = true := List.forall_mem_singleton.mpr (by decide)
    refine ⟨['0'], ['0'], ⟨hdigit, by decide, fun _ => rfl⟩, hdigit, by decide, ?_, ?_⟩
    · rw [if_pos hzero]
      rfl
    · have hmagnitude : x.magnitude = 0 := by simpa [Binary64.isZero] using hzero
      show Binary64.ofMagnitude x.isNegative 0 = x
      rw [← hmagnitude, Binary64.ofMagnitude_magnitude]
  · have hzero : x.isZero = false := by simpa using hzero
    -- Any other number is written as its shortest decimal, which is in the interval of the number.
    obtain ⟨hpos, hcontains⟩ := Binary64.shortest_contains hfinite hzero
    obtain ⟨whole, fraction, hwhole, hfraction, hne, hchars, hspells, hspelled⟩ :=
      exists_inPlace hpos x.shortest.power
    have hall : ∀ c ∈ whole ++ fraction, c.isDigit = true := fun c hc =>
      (List.mem_append.mp hc).elim (hwhole.1 c) (hfraction c)
    obtain ⟨hlow, hhigh⟩ := bounds_ofDigitChars hall hspells
    refine ⟨whole, fraction, hwhole, hfraction, hne, ?_, ?_⟩
    · rw [← hchars, if_neg (by simp [hzero])]
      rfl
    · rw [← hspelled] at hcontains
      rw [decimalValue_eq hfinite hzero hspells hlow hhigh hcontains,
        Binary64.ofMagnitude_magnitude]

/-- **A written floating-point number is read back**, the sign of a zero included. -/
theorem readNumeral_renderFloat {x : Binary64} (hfinite : x.isFinite = true) {rest : List Char}
    (hrest : Stops rest) : readNumeral (renderFloat x ++ rest) = some (.float x, rest) := by
  obtain ⟨whole, fraction, hwhole, hfraction, hne, hchars, hvalue⟩ := exists_renderFloat hfinite
  have hpoint : ∀ c ∈ ('.' :: (fraction ++ rest)).head?,
      c.isDigit = false ∧ c ≠ '-' ∧ c ≠ ':' := by
    intro c hc
    obtain rfl : '.' = c := Option.some.inj hc
    decide
  rw [hchars, List.append_assoc, List.append_assoc, List.cons_append, readNumeral,
    readDateTime_number _ hwhole hpoint,
    readFloat_digits _ hwhole hfraction hne hrest hfinite hvalue]
  rfl

/-- A number begins with a dash or a digit. -/
theorem exists_number_eq_cons (negative : Bool) {digits : List Char} (h : IsWhole digits)
    (rest : List Char) : ∃ c others, signChars negative ++ (digits ++ rest) = c :: others ∧
      (c = '-' ∨ c.isDigit = true) := by
  cases negative with
  | true => exact ⟨'-', _, rfl, .inl rfl⟩
  | false =>
    obtain ⟨hdigits, hne, -⟩ := h
    obtain ⟨c, others, rfl⟩ := List.exists_cons_of_ne_nil hne
    exact ⟨c, others ++ rest, rfl, .inr (hdigits c List.mem_cons_self)⟩

end DocRelay.Toml
