import DocRelay.Wheel.Version

namespace DocRelay.Wheel

/-!
# The order of versions

Two numbers compare as numbers and any other two segments as texts.  Each of the two is an order;
together they are none: `2` is below `10`, which is below `1a`, which is below `2`.  Versions whose
segments are of one kind wherever they are compared are in order, and versions of digits are in the
order of their numbers, unless a number is too large for a word and a longer or shorter one stands
at the same place.

* `compareSegments_eq_compareLex` — versions are compared segment by segment;
* `alike`, `compareSegments_of_alike` — versions that are compared by one order;
* `compareDigits` — digits of one length, as texts and as numbers;
* `compareVersions_numeric` — versions of digits, in the order of their numbers.
-/

open Std

/-! ### The kinds of segments -/

/-- The segment compares as a number. -/
def isNumber (segment : List Char) : Bool :=
  (segmentNumber? segment).isSome

/-- Versions compare like lists, by their first segments that differ. -/
theorem compareSegments_eq_compareLex (a b : List (List Char)) :
    compareSegments a b = List.compareLex compareSegment a b := by
  induction a generalizing b with
  | nil => cases b <;> rfl
  | cons first rest ih =>
    cases b with
    | nil => rfl
    | cons other others => rw [compareSegments, List.compareLex_cons_cons, ih]

/-- Turned round, two segments compare the other way. -/
instance : OrientedCmp compareSegment where
  eq_swap {a b} := by
    rw [compareSegment, compareSegment]
    cases segmentNumber? a <;> cases segmentNumber? b <;> exact OrientedOrd.eq_swap

/-- Turned round, two versions compare the other way. -/
instance : OrientedCmp compareVersions where
  eq_swap {a b} := by
    rw [compareVersions, compareVersions, compareSegments_eq_compareLex,
      compareSegments_eq_compareLex]
    exact OrientedCmp.eq_swap

/-! ### Versions that are compared by one order -/

/-- What a segment counts as beside its number: nothing if it has one. -/
def wording (segment : List Char) : String :=
  if isNumber segment then "" else String.ofList segment

/-- The order of segments in which all texts come before all numbers. -/
def rankSegment : List Char → List Char → Ordering :=
  compareLex (compareOn segmentNumber?) (compareOn wording)

instance : TransCmp rankSegment :=
  inferInstanceAs (TransCmp (compareLex _ _))

/-- Two segments of one kind are in the order in which no kinds are mixed. -/
theorem compareSegment_of_alike {a b : List Char} (h : isNumber a = isNumber b) :
    compareSegment a b = rankSegment a b := by
  rw [isNumber, isNumber] at h
  rw [compareSegment, rankSegment, compareLex, compareOn, compareOn, wording, wording, isNumber,
    isNumber]
  cases ha : segmentNumber? a with
  | none =>
    cases hb : segmentNumber? b with
    | none => rfl
    | some n => simp [ha, hb] at h
  | some m =>
    cases hb : segmentNumber? b with
    | none => simp [ha, hb] at h
    | some n =>
      show compare m n = (compare m n).then (compare "" "")
      rw [ReflOrd.compare_self, Ordering.then_eq]

/-- Wherever the two versions are compared, up to the first segments that differ, both segments
    are numbers or both are texts. -/
def alike : List (List Char) → List (List Char) → Bool
  | a :: as, b :: bs => isNumber a == isNumber b && (compareSegment a b != .eq || alike as bs)
  | _, _ => true

/-- Versions that are alike are in the order in which no kinds are mixed. -/
theorem compareSegments_of_alike {a b : List (List Char)} (h : alike a b = true) :
    compareSegments a b = List.compareLex rankSegment a b := by
  induction a generalizing b with
  | nil => cases b <;> rfl
  | cons first rest ih =>
    cases b with
    | nil => rfl
    | cons other others =>
      rw [alike, Bool.and_eq_true, beq_iff_eq, Bool.or_eq_true, bne_iff_ne] at h
      obtain ⟨hkind, hrest⟩ := h
      rw [compareSegments, List.compareLex_cons_cons, ← compareSegment_of_alike hkind]
      -- Only behind equal segments do the rests matter.
      by_cases hfirst : compareSegment first other = .eq
      · rw [ih (hrest.resolve_left (absurd hfirst))]
      · cases hc : compareSegment first other with
        | eq => exact absurd hc hfirst
        | lt => rfl
        | gt => rfl

/-! ### Versions of digits -/

/-- The segments are decimal numbers, of any length. -/
def IsNumeric (version : String) : Prop :=
  ∀ segment ∈ segments version, segment ≠ [] ∧ ∀ c ∈ segment, c.isDigit = true

instance (version : String) : Decidable (IsNumeric version) :=
  decidable_of_iff
    ((segments version).all (fun segment => !segment.isEmpty && segment.all Char.isDigit) = true)
    (by simp [IsNumeric])

/-- The numbers that the segments denote. -/
def numbers (version : String) : List Nat :=
  (segments version).map fun segment => Nat.ofDigitChars 10 segment 0

/-- A digit denotes less than ten, and its number is what it stands behind zero. -/
theorem digit_bounds {c : Char} (h : c.isDigit = true) : 48 ≤ c.toNat ∧ c.toNat ≤ 57 := by
  simp only [Char.isDigit, Bool.and_eq_true, decide_eq_true_eq] at h
  exact ⟨UInt32.le_iff_toNat_le.mp h.1, UInt32.le_iff_toNat_le.mp h.2⟩

/-- Of numbers with digits behind them, equally many, the lesser one is less. -/
theorem ofDigitChars_lt {a b : List Char} (hlength : a.length = b.length)
    (ha : ∀ c ∈ a, c.isDigit = true) (hb : ∀ c ∈ b, c.isDigit = true) {m n : Nat} (h : m < n) :
    Nat.ofDigitChars 10 a m < Nat.ofDigitChars 10 b n := by
  induction a generalizing b m n with
  | nil =>
    obtain rfl := List.length_eq_zero_iff.mp hlength.symm
    rwa [Nat.ofDigitChars_nil, Nat.ofDigitChars_nil]
  | cons c a ih =>
    obtain ⟨d, b, rfl⟩ := List.exists_cons_of_length_eq_add_one hlength.symm
    obtain ⟨-, hc⟩ := digit_bounds (ha c List.mem_cons_self)
    rw [Nat.ofDigitChars_cons, Nat.ofDigitChars_cons]
    refine ih (by simpa using hlength) (fun x hx => ha x (List.mem_cons_of_mem _ hx))
      (fun x hx => hb x (List.mem_cons_of_mem _ hx)) ?_
    show 10 * m + (c.toNat - 48) < 10 * n + (d.toNat - 48)
    omega

/-- Digits of one length, as texts and as numbers: the lesser text is the lesser number. -/
theorem lt_iff_ofDigitChars_lt {a b : List Char} (hlength : a.length = b.length)
    (ha : ∀ c ∈ a, c.isDigit = true) (hb : ∀ c ∈ b, c.isDigit = true) (m : Nat) :
    a < b ↔ Nat.ofDigitChars 10 a m < Nat.ofDigitChars 10 b m := by
  induction a generalizing b m with
  | nil =>
    obtain rfl := List.length_eq_zero_iff.mp hlength.symm
    simp
  | cons c a ih =>
    obtain ⟨d, b, rfl⟩ := List.exists_cons_of_length_eq_add_one hlength.symm
    have hrest : a.length = b.length := by simpa using hlength
    have ha' : ∀ x ∈ a, x.isDigit = true := fun x hx => ha x (List.mem_cons_of_mem _ hx)
    have hb' : ∀ x ∈ b, x.isDigit = true := fun x hx => hb x (List.mem_cons_of_mem _ hx)
    have hc := digit_bounds (ha c List.mem_cons_self)
    have hd := digit_bounds (hb d List.mem_cons_self)
    have hless : c < d ↔ c.toNat < d.toNat := UInt32.lt_iff_toNat_lt
    rw [List.cons_lt_cons_iff, Nat.ofDigitChars_cons, Nat.ofDigitChars_cons]
    show (c < d ∨ c = d ∧ a < b) ↔ Nat.ofDigitChars 10 a (10 * m + (c.toNat - 48))
      < Nat.ofDigitChars 10 b (10 * m + (d.toNat - 48))
    -- The first digits that differ decide, as later ones cannot make up for them.
    rcases Nat.lt_trichotomy c.toNat d.toNat with hlt | heq | hgt
    · have hnumber := ofDigitChars_lt hrest ha' hb'
        (show 10 * m + (c.toNat - 48) < 10 * m + (d.toNat - 48) by omega)
      exact iff_of_true (.inl (hless.mpr hlt)) hnumber
    · obtain rfl : c = d := Char.toNat_inj.mp heq
      rw [ih hrest ha' hb' (10 * m + (c.toNat - 48))]
      simp
    · have hnumber := ofDigitChars_lt hrest.symm hb' ha'
        (show 10 * m + (d.toNat - 48) < 10 * m + (c.toNat - 48) by omega)
      refine iff_of_false ?_ (by omega)
      rintro (hcd | ⟨rfl, -⟩)
      · exact absurd (hless.mp hcd) (by omega)
      · omega

/-- **Digits of one length** compare as texts as they do as numbers. -/
theorem compareDigits {a b : List Char} (hlength : a.length = b.length)
    (ha : ∀ c ∈ a, c.isDigit = true) (hb : ∀ c ∈ b, c.isDigit = true) :
    compare (String.ofList a) (String.ofList b)
      = compare (Nat.ofDigitChars 10 a 0) (Nat.ofDigitChars 10 b 0) := by
  have hless : ∀ {s t : List Char}, s < t → compare (String.ofList s) (String.ofList t) = .lt :=
    fun hst => (compareOfLessAndEq_eq_lt).mpr (String.lt_iff.mpr (by simpa using hst))
  have hlt := lt_iff_ofDigitChars_lt hlength ha hb 0
  have hgt := lt_iff_ofDigitChars_lt hlength.symm hb ha 0
  rcases Std.lt_trichotomy a b with h | rfl | h
  · rw [hless h, Nat.compare_eq_lt.mpr (hlt.mp h)]
  · rw [ReflOrd.compare_self, ReflOrd.compare_self]
  · rw [OrientedCmp.gt_of_lt (hless h), Nat.compare_eq_gt.mpr (hgt.mp h)]

/-- The number of a segment of digits is the one that they denote, if it fits a word. -/
theorem segmentNumber?_of_digits {segment : List Char} (hne : segment ≠ [])
    (hdigits : ∀ c ∈ segment, c.isDigit = true) :
    segmentNumber? segment = if Nat.ofDigitChars 10 segment 0 ≤ 0xFFFFFFFFFFFFFFFF
      then some (Nat.ofDigitChars 10 segment 0) else none := by
  obtain ⟨c, rest, rfl⟩ := List.exists_cons_of_ne_nil hne
  have hvalue : digitsValue (c :: rest) = Nat.ofDigitChars 10 (c :: rest) 0 := by
    rw [digitsValue, Nat.ofDigitChars_eq_foldl]
    congr 1
    funext n d
    rw [Nat.mul_comm]
    rfl
  -- A sign in front would be passed, but a digit is none.
  have hplus : c ≠ '+' := by
    rintro rfl
    exact absurd (hdigits '+' List.mem_cons_self) (by decide)
  have hall : (c :: rest).all Char.isDigit = true := List.all_eq_true.mpr hdigits
  rw [segmentNumber?.eq_def]
  split
  · rename_i heq
    exact absurd (List.cons.inj heq).1 hplus
  · simp only [hall, hvalue]
    rfl

/-- The numbers decide the order of the two segments of digits: both fit a word, or there are
    equally many digits. -/
def wellMatched (a b : List Char) : Bool :=
  (Nat.ofDigitChars 10 a 0 ≤ 0xFFFFFFFFFFFFFFFF && Nat.ofDigitChars 10 b 0 ≤ 0xFFFFFFFFFFFFFFFF)
    || a.length == b.length

/-- Well-matched segments of digits compare as their numbers. -/
theorem compareSegment_of_digits {a b : List Char} (ha : a ≠ [] ∧ ∀ c ∈ a, c.isDigit = true)
    (hb : b ≠ [] ∧ ∀ c ∈ b, c.isDigit = true) (h : wellMatched a b = true) :
    compareSegment a b = compare (Nat.ofDigitChars 10 a 0) (Nat.ofDigitChars 10 b 0) := by
  rw [compareSegment, segmentNumber?_of_digits ha.1 ha.2, segmentNumber?_of_digits hb.1 hb.2]
  by_cases hboth : Nat.ofDigitChars 10 a 0 ≤ 0xFFFFFFFFFFFFFFFF ∧
      Nat.ofDigitChars 10 b 0 ≤ 0xFFFFFFFFFFFFFFFF
  · rw [if_pos hboth.1, if_pos hboth.2]
  · -- One of the numbers fits no word, so the segments are compared as texts.
    have hlength : a.length = b.length := by
      simpa [wellMatched, hboth] using h
    have htexts := compareDigits hlength ha.2 hb.2
    split
    · rename_i hm hn
      simp at hm hn
      exact absurd ⟨hm.1, hn.1⟩ hboth
    · exact htexts

/-- **Versions of digits** are in the order of the numbers that their segments denote, the shorter
    one first where one continues the other, if all segments that stand at the same place are well
    matched. -/
theorem compareVersions_numeric {a b : String} (ha : IsNumeric a) (hb : IsNumeric b)
    (h : ∀ pair ∈ (segments a).zip (segments b), wellMatched pair.1 pair.2 = true) :
    compareVersions a b = compare (numbers a) (numbers b) := by
  rw [IsNumeric] at ha hb
  rw [compareVersions, numbers, numbers]
  generalize segments a = first at ha h
  generalize segments b = second at hb h
  induction first generalizing second with
  | nil => cases second <;> rfl
  | cons s rest ih =>
    cases second with
    | nil => rfl
    | cons t others =>
      have hhead := compareSegment_of_digits (ha s List.mem_cons_self) (hb t List.mem_cons_self)
        (h (s, t) List.mem_cons_self)
      have htail := ih (fun u hu => ha u (List.mem_cons_of_mem _ hu)) others
        (fun u hu => hb u (List.mem_cons_of_mem _ hu)) fun p hp => h p (List.mem_cons_of_mem _ hp)
      rw [compareSegments, hhead, htail, List.map_cons, List.map_cons, List.compare_cons_cons]

/-- Dates and build numbers, one with a leading zero and two that fit no word. -/
theorem compareVersions_numeric_builds :
    let a := "2024.09.18446744073709551616"
    let b := "2024.9.18446744073709551617"
    IsNumeric a ∧ IsNumeric b ∧
    (∀ pair ∈ (segments a).zip (segments b), wellMatched pair.1 pair.2 = true) ∧
    compareVersions a b = compare (numbers a) (numbers b) := by
  intro a b
  have ha : IsNumeric a := by decide +kernel
  have hb : IsNumeric b := by decide +kernel
  have h : ∀ pair ∈ (segments a).zip (segments b), wellMatched pair.1 pair.2 = true := by
    decide +kernel
  exact ⟨ha, hb, h, compareVersions_numeric ha hb h⟩

/-- **A number that fits no word** comes before nine, as its first digit does. -/
theorem longNumber_before_nine :
    IsNumeric "18446744073709551616" ∧ IsNumeric "9" ∧
    compareVersions "18446744073709551616" "9" = .lt ∧
    compare (numbers "18446744073709551616") (numbers "9") = .gt := by
  decide +kernel

end DocRelay.Wheel
