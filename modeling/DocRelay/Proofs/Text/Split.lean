import DocRelay.Text.Blank
import DocRelay.Text.Split

namespace DocRelay.Text

/-!
# What cutting a text gives

The pieces of a text are those that joining puts together again, none of which has the mark in it.
The first mark of a text is the one that nothing before it is, and a line goes up to its newline.

* `split_append_cons`, `split_eq_iff` — the pieces;
* `length_split` — there is one piece more than there are marks;
* `isPrefixOf?_eq_some_iff` — what a text begins with;
* `splitFirst_append`, `splitFirst_of_notMem` — the first mark, if there is one;
* `linesOn_append` — the first line;
* `trimEnd_append`, `trimChars_cons` — blanks at the ends;
* `trimChars_around`, `trimChars_eq_self` — what is not blank stays, with all that is between.
-/

/-! ### Pieces -/

/-- A text without a mark is one piece. -/
theorem split_of_notMem {p : Char → Bool} {cs : List Char} (h : ∀ c ∈ cs, p c = false) :
    split p cs = [cs] := by
  induction cs with
  | nil => rfl
  | cons c rest ih =>
    obtain ⟨hc, hrest⟩ := List.forall_mem_cons.mp h
    rw [split, hc, ih hrest]
    rfl

/-- **A mark parts a text**: the pieces before it come before those behind it. -/
theorem split_append_cons {p : Char → Bool} {mark : Char} (hmark : p mark = true)
    (front back : List Char) : split p (front ++ mark :: back) = split p front ++ split p back := by
  induction front with
  | nil =>
    show (if p mark = true then [] :: split p back else _) = [] :: split p back
    exact if_pos hmark
  | cons c rest ih =>
    rw [List.cons_append, split, split, ih]
    by_cases hc : p c = true
    · rw [if_pos hc, if_pos hc]
      rfl
    · rw [if_neg hc, if_neg hc]
      obtain ⟨piece, pieces, hsplit⟩ := List.exists_cons_of_ne_nil (split_ne_nil p rest)
      rw [hsplit]
      rfl

/-- A mark ends the first piece. -/
theorem split_append {p : Char → Bool} {piece : List Char} {mark : Char}
    (h : ∀ c ∈ piece, p c = false) (hmark : p mark = true) (rest : List Char) :
    split p (piece ++ mark :: rest) = piece :: split p rest := by
  rw [split_append_cons hmark, split_of_notMem h]
  rfl

/-- There is no mark in a piece. -/
theorem eq_false_of_mem_split {p : Char → Bool} {cs piece : List Char} (h : piece ∈ split p cs) :
    ∀ c ∈ piece, p c = false := by
  induction cs generalizing piece with
  | nil =>
    obtain rfl := List.mem_singleton.mp h
    exact fun c hc => absurd hc List.not_mem_nil
  | cons d rest ih =>
    obtain ⟨first, others, hsplit⟩ := List.exists_cons_of_ne_nil (split_ne_nil p rest)
    rw [split, hsplit] at h
    rw [hsplit] at ih
    by_cases hd : p d = true
    · rw [if_pos hd] at h
      rcases List.mem_cons.mp h with rfl | h
      · exact fun c hc => absurd hc List.not_mem_nil
      · exact ih h
    · rw [if_neg hd] at h
      rcases List.mem_cons.mp h with rfl | h
      · exact List.forall_mem_cons.mpr ⟨Bool.eq_false_iff.mpr hd, ih List.mem_cons_self⟩
      · exact ih (List.mem_cons_of_mem _ h)

theorem join_cons_cons (mark : Char) (piece next : List Char) (others : List (List Char)) :
    join [mark] (piece :: next :: others) = piece ++ mark :: join [mark] (next :: others) :=
  List.append_assoc _ _ _

/-- Joined pieces without the mark in them are cut again. -/
theorem split_join {mark : Char} {pieces : List (List Char)} (hne : pieces ≠ [])
    (h : ∀ piece ∈ pieces, mark ∉ piece) : split (· == mark) (join [mark] pieces) = pieces := by
  have hplain : ∀ piece ∈ pieces, ∀ c ∈ piece, (c == mark) = false := by
    intro piece hpiece c hc
    exact beq_eq_false_iff_ne.mpr fun he => h piece hpiece (he ▸ hc)
  induction pieces with
  | nil => exact absurd rfl hne
  | cons piece others ih =>
    obtain ⟨hpiece, hothers⟩ := List.forall_mem_cons.mp hplain
    cases others with
    | nil => exact split_of_notMem hpiece
    | cons next more =>
      have hnext := ih (List.cons_ne_nil _ _) (fun q hq => h q (List.mem_cons_of_mem _ hq)) hothers
      rw [join_cons_cons, split_append hpiece (beq_self_eq_true _), hnext]

/-- **The pieces of a text** are the texts without the mark that give it back when they are
    joined. -/
theorem split_eq_iff {mark : Char} {cs : List Char} {pieces : List (List Char)} :
    split (· == mark) cs = pieces ↔
      pieces ≠ [] ∧ (∀ piece ∈ pieces, mark ∉ piece) ∧ cs = join [mark] pieces := by
  constructor
  · rintro rfl
    refine ⟨split_ne_nil _ _, fun piece hpiece hmem => ?_, (join_split mark cs).symm⟩
    exact absurd (eq_false_of_mem_split hpiece mark hmem) (by simp)
  · rintro ⟨hne, h, rfl⟩
    exact split_join hne h

/-- Joined pieces have the marks between them and those of their own. -/
theorem count_join {mark : Char} {pieces : List (List Char)} (h : ∀ piece ∈ pieces, mark ∉ piece) :
    (join [mark] pieces).count mark = pieces.length - 1 := by
  induction pieces with
  | nil => rfl
  | cons piece others ih =>
    obtain ⟨hpiece, hothers⟩ := List.forall_mem_cons.mp h
    cases others with
    | nil => exact List.count_eq_zero_of_not_mem hpiece
    | cons next more =>
      rw [join_cons_cons, List.count_append, List.count_cons_self, ih hothers,
        List.count_eq_zero_of_not_mem hpiece]
      simp

/-- There is one piece more than there are marks. -/
theorem length_split (mark : Char) (cs : List Char) :
    (split (· == mark) cs).length = cs.count mark + 1 := by
  obtain ⟨hne, hpieces, hjoin⟩ := split_eq_iff.mp (rfl : split (· == mark) cs = _)
  have hcount := count_join hpieces
  rw [← hjoin] at hcount
  have hpos := List.length_pos_iff.mpr hne
  omega

/-- The last piece has no mark in it. -/
theorem eq_false_of_mem_afterLast {p : Char → Bool} {cs : List Char} :
    ∀ c ∈ afterLast p cs, p c = false := by
  have hlast : (split p cs).getLastD [] ∈ split p cs := by
    rw [List.getLastD_eq_getLast?, List.getLast?_eq_some_getLast (split_ne_nil p cs)]
    exact List.getLast_mem _
  exact eq_false_of_mem_split hlast

/-! ### First marks and lines -/

/-- What is left of a text behind another that it begins with. -/
theorem isPrefixOf?_eq_some_iff {front cs rest : List Char} :
    front.isPrefixOf? cs = some rest ↔ cs = front ++ rest := by
  induction front generalizing cs with
  | nil =>
    show some cs = some rest ↔ cs = rest
    simp
  | cons c others ih =>
    cases cs with
    | nil =>
      show none = some rest ↔ [] = c :: others ++ rest
      simp
    | cons d more =>
      show (if (c == d) = true then others.isPrefixOf? more else none) = some rest ↔ _
      by_cases hcd : c = d
      · simp [hcd, ih]
      · have hdc : ¬d = c := fun he => hcd he.symm
        simp [hcd, hdc]

/-- A text is split at its first character if that is the mark. -/
theorem splitFirst_cons (mark c : Char) (rest : List Char) :
    splitFirst [mark] (c :: rest)
      = if mark == c then some ([], rest)
        else (splitFirst [mark] rest).map fun parts => (c :: parts.1, parts.2) := by
  have hfirst : [mark].isPrefixOf? (c :: rest) = if mark == c then some rest else none := rfl
  rw [splitFirst, hfirst]
  cases mark == c <;> rfl

/-- A text without the mark is not split. -/
theorem splitFirst_of_notMem {mark : Char} {cs : List Char} (h : mark ∉ cs) :
    splitFirst [mark] cs = none := by
  induction cs with
  | nil => rfl
  | cons c others ih =>
    have hc : ¬(mark == c) = true := fun he => h (beq_iff_eq.mp he ▸ List.mem_cons_self)
    rw [splitFirst_cons, if_neg hc, ih fun hmem => h (List.mem_cons_of_mem _ hmem)]
    rfl

/-- **The first mark** is the one with no other before it. -/
theorem splitFirst_append {mark : Char} {front : List Char} (h : mark ∉ front) (rest : List Char) :
    splitFirst [mark] (front ++ mark :: rest) = some (front, rest) := by
  induction front with
  | nil => rw [List.nil_append, splitFirst_cons, beq_self_eq_true, if_pos rfl]
  | cons c others ih =>
    have hc : ¬(mark == c) = true := fun he => h (beq_iff_eq.mp he ▸ List.mem_cons_self)
    rw [List.cons_append, splitFirst_cons, if_neg hc,
      ih fun hmem => h (List.mem_cons_of_mem _ hmem)]
    rfl

section Lines

variable {α : Type} [BEq α] [LawfulBEq α] {newline carriage : α}

/-- A line without the carriage return at its end. -/
def dropCarriage [DecidableEq α] (carriage : α) (line : List α) : List α :=
  if line.getLast? = some carriage then line.dropLast else line

/-- **A newline ends a line.** -/
theorem linesOn_append [DecidableEq α] {line : List α} (h : newline ∉ line) (rest : List α) :
    linesOn newline carriage (line ++ newline :: rest)
      = dropCarriage carriage line :: linesOn newline carriage rest := by
  induction line with
  | nil => simp [linesOn, dropCarriage]
  | cons b others ih =>
    have hb : ¬(b == newline) = true := fun he => h (beq_iff_eq.mp he ▸ List.mem_cons_self)
    have hothers : newline ∉ others := fun hmem => h (List.mem_cons_of_mem _ hmem)
    rw [List.cons_append, linesOn, if_neg hb, ih hothers]
    cases others with
    -- Only the last character of a line can be the carriage return that is dropped.
    | nil =>
      by_cases hb : b = carriage
      · simp [dropCarriage, hb]
      · simp [dropCarriage, hb]
    | cons c others =>
      have hc : ¬c = newline := fun he => hothers (he ▸ List.mem_cons_self)
      have hhead : ¬(b == carriage && (c :: others ++ newline :: rest).head? == some newline)
          = true := by simp [hc]
      rw [if_neg hhead, dropCarriage, dropCarriage, List.getLast?_cons_cons,
        List.dropLast_cons_cons]
      by_cases hlast : (c :: others).getLast? = some carriage
      · rw [if_pos hlast, if_pos hlast]
      · rw [if_neg hlast, if_neg hlast]

end Lines

/-! ### Blanks at the ends -/

/-- Blanks behind a text are trimmed. -/
theorem trimEnd_append {cs blanks : List Char} (h : ∀ c ∈ blanks, isBlank c = true) :
    trimEnd (cs ++ blanks) = trimEnd cs := by
  induction cs with
  | nil =>
    rw [List.nil_append, trimEnd, trimEnd_eq_nil_iff.mpr (List.all_eq_true.mpr h)]
  | cons c rest ih => rw [List.cons_append, trimEnd, trimEnd, ih]

/-- Blanks behind a text are trimmed, also if nothing else is there. -/
theorem trimChars_append {cs blanks : List Char} (h : ∀ c ∈ blanks, isBlank c = true) :
    trimChars (cs ++ blanks) = trimChars cs := by
  rw [trimChars, trimChars, List.dropWhile_append]
  split
  · rename_i hempty
    have hrest : trimEnd (blanks.dropWhile isBlank) = [] := by
      rw [trimEnd_eq_nil_iff, List.all_eq_true]
      exact fun c hc => h c ((List.dropWhile_sublist _).subset hc)
    rw [hrest, List.isEmpty_iff.mp hempty]
    rfl
  · exact trimEnd_append h

/-- A blank in front of a text is trimmed. -/
theorem trimChars_cons {c : Char} (h : isBlank c = true) (cs : List Char) :
    trimChars (c :: cs) = trimChars cs := by
  rw [trimChars, List.dropWhile_cons_of_pos h, trimChars]

/-- What trimming the end leaves, and the blanks that it takes away. -/
theorem exists_trimEnd_append (cs : List Char) :
    ∃ blanks, cs = trimEnd cs ++ blanks ∧ ∀ c ∈ blanks, isBlank c = true := by
  induction cs with
  | nil => exact ⟨[], rfl, by simp⟩
  | cons c rest ih =>
    obtain ⟨blanks, hrest, hblanks⟩ := ih
    rw [trimEnd]
    split
    · rename_i hnil
      rw [hnil, List.nil_append] at hrest
      subst hrest
      by_cases hc : isBlank c = true
      · rw [if_pos hc]
        exact ⟨c :: rest, rfl, List.forall_mem_cons.mpr ⟨hc, hblanks⟩⟩
      · rw [if_neg hc]
        exact ⟨rest, rfl, hblanks⟩
    · exact ⟨blanks, congrArg (c :: ·) hrest, hblanks⟩

/-- What is not blank, and all that stands before it, is not trimmed at the end. -/
theorem trimEnd_behind {front mid : List Char} (hne : mid ≠ [])
    (h : ∀ c ∈ mid, isBlank c = false) (back : List Char) :
    trimEnd (front ++ (mid ++ back)) = front ++ (mid ++ trimEnd back) := by
  have hmid : trimEnd (mid ++ back) = mid ++ trimEnd back := by
    clear hne
    induction mid with
    | nil => rfl
    | cons c rest ih =>
      obtain ⟨hc, hrest⟩ := List.forall_mem_cons.mp h
      rw [List.cons_append, trimEnd, ih hrest]
      split
      · -- Nothing is left behind the character, which is kept since it is not blank.
        rename_i hnil
        simp [hc, hnil]
      · rfl
  induction front with
  | nil => exact hmid
  | cons c rest ih =>
    rw [List.cons_append, trimEnd, ih]
    split
    · rename_i hnil
      simp [hne] at hnil
    · rfl

/-- **What is not blank** stays, and so does all that stands between it. -/
theorem trimChars_around {front mid : List Char} (hne : mid ≠ [])
    (h : ∀ c ∈ mid, isBlank c = false) (back : List Char) :
    trimChars (front ++ (mid ++ back)) = front.dropWhile isBlank ++ (mid ++ trimEnd back) := by
  have hdrop : (front ++ (mid ++ back)).dropWhile isBlank
      = front.dropWhile isBlank ++ (mid ++ back) := by
    obtain ⟨c, rest, rfl⟩ := List.exists_cons_of_ne_nil hne
    have hc := h c List.mem_cons_self
    rw [List.dropWhile_append]
    split
    · rename_i hempty
      simp [List.isEmpty_iff.mp hempty, hc]
    · rfl
  rw [trimChars, hdrop, trimEnd_behind hne h]

/-- The first character of a trimmed text is not blank. -/
theorem isBlank_head_trimChars {cs : List Char} {c : Char} (h : (trimChars cs).head? = some c) :
    isBlank c = false := by
  obtain ⟨blanks, hdrop, -⟩ := exists_trimEnd_append (cs.dropWhile isBlank)
  have hhead : (cs.dropWhile isBlank).head? = some c := by
    rw [trimChars] at h
    rw [hdrop, List.head?_append, h]
    rfl
  simpa [hhead] using List.head?_dropWhile_not isBlank cs

/-- The last character of a trimmed text is not blank. -/
theorem isBlank_last_trimChars {cs : List Char} {c : Char}
    (h : (trimChars cs).getLast? = some c) : isBlank c = false := by
  have hne : trimChars cs ≠ [] := by
    intro hnil
    simp [hnil] at h
  have hlast : isBlank ((trimChars cs).getLast hne) = false := isBlank_getLast_trimEnd hne
  rwa [(List.getLast_eq_iff_getLast?_eq_some hne).mpr h] at hlast

/-- A text without blanks at its ends is not trimmed. -/
theorem trimChars_eq_self {cs : List Char} (hhead : ∀ c ∈ cs.head?, isBlank c = false)
    (hlast : ∀ c ∈ cs.getLast?, isBlank c = false) : trimChars cs = cs := by
  have hfront : cs.dropWhile isBlank = cs := by
    cases cs with
    | nil => rfl
    | cons c rest => exact List.dropWhile_cons_of_neg (by simp [hhead c rfl])
  rw [trimChars, hfront]
  rcases List.eq_nil_or_concat cs with rfl | ⟨front, c, rfl⟩
  · rfl
  · rw [List.concat_eq_append] at hlast ⊢
    have hc : isBlank c = false := hlast c (by simp)
    have hbehind : trimEnd (front ++ ([c] ++ [])) = front ++ ([c] ++ trimEnd []) :=
      trimEnd_behind (List.cons_ne_nil c []) (by simpa using hc) []
    simpa [trimEnd] using hbehind

/-- A text is blank exactly if trimming leaves nothing. -/
theorem trim_isEmpty (s : String) : (trim s).isEmpty = isBlankText s := by
  rw [Bool.eq_iff_iff, trim, String.isEmpty_iff, String.ofList_eq_empty_iff, trimChars,
    trimEnd_eq_nil_iff, isBlankText, List.all_eq_true, List.all_eq_true]
  constructor
  · intro h c hc
    refine Decidable.byContradiction fun hblank => ?_
    have hmem : c ∈ s.toList.dropWhile isBlank := by
      rw [← List.takeWhile_append_dropWhile (p := isBlank) (l := s.toList)] at hc
      exact (List.mem_append.mp hc).resolve_left fun htake =>
        hblank (List.all_eq_true.mp List.all_takeWhile c htake)
    exact hblank (h c hmem)
  · exact fun h c hc => h c ((List.dropWhile_sublist _).subset hc)

end DocRelay.Text
