namespace DocRelay.Text

/-!
# Blank characters

White space is the Unicode property of that name: the ASCII blanks, the next-line control and
the spaces of the other blocks.

* `isBlank c` — the character is white space;
* `trim s` — the text without the blanks at its two ends;
* `isBlankText s` — nothing is left after trimming.
-/

/-- The character has the Unicode property White_Space. -/
def isBlank (c : Char) : Bool :=
  let n := c.toNat
  (9 ≤ n && n ≤ 13) || n == 0x20 || n == 0x85 || n == 0xA0 || n == 0x1680
    || (0x2000 ≤ n && n ≤ 0x200A) || n == 0x2028 || n == 0x2029 || n == 0x202F || n == 0x205F
    || n == 0x3000

/-- The characters without the blanks at the end. -/
def trimEnd : List Char → List Char
  | [] => []
  | c :: rest =>
    match trimEnd rest with
    | [] => if isBlank c then [] else [c]
    | kept => c :: kept

/-- The characters without the blanks at either end. -/
def trimChars (cs : List Char) : List Char :=
  trimEnd (cs.dropWhile isBlank)

/-- The text without the blanks at either end. -/
def trim (s : String) : String :=
  String.ofList (trimChars s.toList)

/-- The text holds nothing but blanks. -/
def isBlankText (s : String) : Bool :=
  s.toList.all isBlank

/-- Trimming the end leaves nothing exactly when every character is blank. -/
theorem trimEnd_eq_nil_iff {cs : List Char} : trimEnd cs = [] ↔ cs.all isBlank = true := by
  induction cs with
  | nil => simp [trimEnd]
  | cons c rest ih =>
    rw [trimEnd]
    split
    · rename_i h
      simp only [ih.mp h, List.all_cons, Bool.and_true]
      by_cases hc : isBlank c = true <;> simp [hc]
    · rename_i kept h
      simp only [List.all_cons, Bool.and_eq_true, reduceCtorEq, false_iff, not_and]
      intro _ hrest
      exact h (ih.mpr hrest)

/-- What is left after trimming the end does not end in a blank. -/
theorem isBlank_getLast_trimEnd {cs : List Char} (h : trimEnd cs ≠ []) :
    isBlank ((trimEnd cs).getLast h) = false := by
  induction cs with
  | nil => exact absurd rfl h
  | cons c rest ih =>
    by_cases hr : trimEnd rest = []
    · by_cases hc : isBlank c = true
      · simp [trimEnd, hr, hc] at h
      · simp [trimEnd, hr, hc]
    · have hcons : trimEnd (c :: rest) = c :: trimEnd rest := by
        rw [trimEnd]; split
        · contradiction
        · rfl
      simp only [hcons, List.getLast_cons hr]
      exact ih hr

end DocRelay.Text
