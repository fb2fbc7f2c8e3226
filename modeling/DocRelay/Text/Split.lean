namespace DocRelay.Text

/-!
# Cutting and joining texts

* `split p cs` — the pieces between the characters that satisfy `p`; there is always one;
* `afterLast p cs` — the last of these pieces;
* `splitFirst mark cs` — the parts before and after the first occurrence of `mark`;
* `join mark pieces` — the pieces with `mark` between them;
* `linesOn newline carriage cs` — the lines of a sequence; `lines` for texts;
* `join_split` — splitting at one character loses nothing.
-/

/-- The pieces between the characters that satisfy `p`. -/
def split (p : Char → Bool) : List Char → List (List Char)
  | [] => [[]]
  | c :: rest =>
    if p c then [] :: split p rest
    else
      match split p rest with
      | [] => [[c]]
      | piece :: pieces => (c :: piece) :: pieces

/-- The first piece. -/
def beforeFirst (p : Char → Bool) (cs : List Char) : List Char :=
  cs.takeWhile fun c => !p c

/-- The piece after the last character that satisfies `p`; all of the text if there is none. -/
def afterLast (p : Char → Bool) (cs : List Char) : List Char :=
  (split p cs).getLastD []

/-- The parts before and after the first occurrence of `mark`. -/
def splitFirst (mark : List Char) : List Char → Option (List Char × List Char)
  | [] => if mark.isEmpty then some ([], []) else none
  | c :: rest =>
    match mark.isPrefixOf? (c :: rest) with
    | some after => some ([], after)
    | none => (splitFirst mark rest).map fun parts => (c :: parts.1, parts.2)

/-- The pieces with `mark` between each two of them. -/
def join (mark : List Char) : List (List Char) → List Char
  | [] => []
  | [piece] => piece
  | piece :: pieces => piece ++ mark ++ join mark pieces

/-- The texts with `mark` between each two of them. -/
def joinText (mark : String) (pieces : List String) : String :=
  String.ofList (join mark.toList (pieces.map String.toList))

/-- The lines of a sequence.  A line ends at a newline, which belongs to no line, and a carriage
    return right before that newline is dropped too; an unended last line counts. -/
def linesOn {α : Type} [BEq α] (newline carriage : α) : List α → List (List α)
  | [] => []
  | c :: rest =>
    if c == newline then [] :: linesOn newline carriage rest
    else if c == carriage && rest.head? == some newline then linesOn newline carriage rest
    else
      match linesOn newline carriage rest with
      | [] => [[c]]
      | line :: others => (c :: line) :: others

/-- The lines of a text. -/
def lines (cs : List Char) : List (List Char) :=
  linesOn '\n' '\r' cs

/-- There is always a piece. -/
theorem split_ne_nil (p : Char → Bool) (cs : List Char) : split p cs ≠ [] := by
  cases cs with
  | nil => simp [split]
  | cons c rest =>
    rw [split]
    split
    · simp
    · split <;> simp

/-- Splitting at one character and joining with it gives the text back. -/
theorem join_split (mark : Char) (cs : List Char) :
    join [mark] (split (· == mark) cs) = cs := by
  induction cs with
  | nil => rfl
  | cons c rest ih =>
    rw [split]
    split
    · rename_i h
      obtain ⟨piece, pieces, hp⟩ := List.exists_cons_of_ne_nil (split_ne_nil (· == mark) rest)
      rw [hp] at ih ⊢
      simp only [beq_iff_eq] at h
      simp [join, ih, h]
    · split
      · rename_i h
        exact absurd h (split_ne_nil _ _)
      · rename_i piece pieces h
        rw [h] at ih
        cases pieces with
        | nil => simp only [join] at ih ⊢; rw [ih]
        | cons next others => simp only [join, List.cons_append] at ih ⊢; rw [ih]

end DocRelay.Text
