import DocRelay.Proofs.Json.Tagged

namespace DocRelay.Json

/-!
# What comes of reading texts

A text that is a value, with blanks around it, is read as what it stands for.  Read as a table it is
the members of an object, and every other value is refused.

* `eq_ok_of_toOption` — outcomes of which only the value is known;
* `Numeral.isNumber`, `Phrase.members?_of_value?`, `Phrase.ne_brace` — only objects stand for
  objects, and begin like one;
* `toOption_readWithin`, `toOption_readTable` — what comes of reading a text.
-/

/-- An outcome that is something has come to it. -/
theorem eq_ok_of_toOption {ε α : Type} {outcome : Except ε α} {value : α}
    (h : outcome.toOption = some value) : outcome = .ok value := by
  cases outcome with
  | error fault => cases h
  | ok other => exact congrArg Except.ok (Option.some.inj h)

/-! ### Objects -/

/-- The value is a number. -/
def IsNumber : Json → Prop
  | .int _ => True
  | .float _ => True
  | _ => False

theorem isNumber_of_float? {negative : Bool} {word : Nat} {power : Int} {j : Json}
    (h : float? negative word power = some j) : IsNumber j := by
  obtain ⟨x, -, rfl⟩ := Option.map_eq_some_iff.mp h
  trivial

theorem Exponent.isNumber {e : Exponent} {negative : Bool} {word : Nat} {power : Int} {j : Json}
    (h : e.value? negative word power = some j) : IsNumber j := by
  rw [value?] at h
  dsimp only at h
  split at h
  · split at h
    · cases h
    · obtain rfl := Option.some.inj h
      trivial
  · exact isNumber_of_float? h

/-- What a number stands for is a number. -/
theorem Numeral.isNumber {n : Numeral} {j : Json} (h : n.value? = some j) : IsNumber j := by
  have hexponent : ∀ word power, exponentValue? n.minus word power n.exponent = some j →
      IsNumber j := by
    intro word power h
    cases he : n.exponent with
    | none =>
      rw [he] at h
      exact isNumber_of_float? h
    | some e =>
      rw [he] at h
      exact Exponent.isNumber h
  rw [value?] at h
  dsimp only at h
  -- There is a fraction, or an exponent alone, or neither.
  split at h
  · exact hexponent _ _ h
  · exact Exponent.isNumber h
  · split at h
    · obtain rfl := Option.some.inj h
      rw [integerOf]
      split
      · trivial
      · split <;> trivial
    · exact isNumber_of_float? h

/-- A number has no members. -/
theorem IsNumber.members? {j : Json} (h : IsNumber j) : j.members? = none := by
  cases j with
  | int _ => rfl
  | float _ => rfl
  | _ => exact h.elim

section NoObject

variable {p : Phrase} (h : ∀ inside members, p ≠ .obj inside members)

include h

/-- What is no object stands for no object. -/
theorem Phrase.members?_of_value? {depth : Nat} {j : Json} (hj : p.value? depth = some j) :
    j.members? = none := by
  cases p with
  | null =>
    rw [value?] at hj
    obtain rfl := Option.some.inj hj
    rfl
  | bool b =>
    rw [value?] at hj
    obtain rfl := Option.some.inj hj
    rfl
  | num n =>
    rw [value?] at hj
    exact (Numeral.isNumber hj).members?
  | str glyphs =>
    rw [value?] at hj
    obtain ⟨text, -, rfl⟩ := Option.map_eq_some_iff.mp hj
    rfl
  | arr inside items =>
    cases depth with
    | zero => cases hj
    | succ depth =>
      rw [value?] at hj
      obtain ⟨values, -, rfl⟩ := Option.map_eq_some_iff.mp hj
      rfl
  | obj inside members => exact absurd rfl (h inside members)

/-- What is no object does not begin with a brace. -/
theorem Phrase.ne_brace {c : Char} {rest : List Char} (hc : p.chars = c :: rest) : c ≠ '\x7b' := by
  cases p with
  | null =>
    rw [chars] at hc
    exact (List.cons.inj hc).1 ▸ by decide
  | bool b =>
    cases b <;> rw [chars] at hc <;> exact (List.cons.inj hc).1 ▸ by decide
  | num n =>
    -- A number begins with its sign or a digit.
    obtain ⟨first, others, hfirst, -, hnone⟩ := n.exists_chars_cons
    rw [chars, hfirst] at hc
    rw [← (List.cons.inj hc).1]
    exact hnone '\x7b' (by decide) (by decide)
  | str glyphs =>
    rw [chars] at hc
    exact (List.cons.inj hc).1 ▸ by decide
  | arr inside items =>
    rw [chars] at hc
    exact (List.cons.inj hc).1 ▸ by decide
  | obj inside members => exact absurd rfl (h inside members)

end NoObject

/-! ### Texts -/

/-- Without a brace there is no table. -/
theorem exists_readTable_eq_error {text : String}
    (h : ∀ rest, (Cursor.start text.toList).skipBlanks.rest ≠ '\x7b' :: rest) :
    ∃ fault, readTable text = .error fault := by
  rw [readTable]
  dsimp only
  split
  · rename_i rest hrest
    exact absurd hrest (h rest)
  · exact exists_readScalarMisfit_eq_error _ _

section Texts

variable {line : Spaced Phrase} {text : String} (htext : text.toList = line.chars)

include htext

/-- **A text that is a value** is read as what it stands for. -/
theorem toOption_readWithin (depth : Nat) :
    (readWithin depth text).toOption = line.core.value? depth := by
  have hstart : (Cursor.start text.toList).rest
      = (line.before.chars ++ line.core.chars) ++ (line.after.chars ++ []) := by
    show text.toList = _
    rw [htext, Spaced.chars, Phrase.spacedChars]
    simp
  have hread := (reads_phrase depth line.core).lead line.before _ _
    (line.after.ends_append fun c hc => by cases hc) hstart
  rw [readWithin]
  cases hvalue : line.core.value? depth with
  | none =>
    rw [hvalue] at hread
    obtain ⟨fault, hfault⟩ := hread
    rw [hfault]
    rfl
  | some j =>
    rw [hvalue] at hread
    obtain ⟨after, hok, hafter⟩ := hread
    -- Nothing but blanks is left.
    have hend : readEnd after = .ok () := by
      apply readEnd_blanks
      rw [hafter, List.append_nil]
      exact line.after.blank
    rw [hok]
    simp only [bind, Except.bind, hend]
    rfl

/-- **A text that is an object** is read as the table of its members; any other value is
    refused. -/
theorem toOption_readTable :
    (readTable text).toOption = (line.core.value? depthLimit).bind fun j =>
      j.members?.map canonicalTable := by
  have hstart : (Cursor.start text.toList).rest
      = line.before.chars ++ (line.core.chars ++ line.after.chars) := by
    show text.toList = _
    rw [htext, Spaced.chars, Phrase.spacedChars]
  obtain ⟨c, others, hc, hblank, -⟩ := line.core.exists_chars_cons
  have hskip := Cursor.rest_skipBlanks line.before.blank
    (by rw [hc]; rintro d ⟨⟩; exact hblank) hstart
  cases hcore : line.core with
  | obj inside members =>
    rw [hcore, Phrase.chars] at hskip
    have hbrace : (Cursor.start text.toList).skipBlanks.rest = '\x7b' :: (inside.chars
        ++ (Phrase.membersChars true members ++ '\x7d' :: line.after.chars)) := by
      rw [hskip]
      simp
    have hread := readMembers_comesTo inside
      (fun m _ => (reads_phrase (depthLimit - 1) m.value.core).lead m.value.before)
      (Cursor.rest_advance_of_eq hbrace)
    rw [readTable, hbrace]
    dsimp only
    show _ = ((members.mapM (Entry.value? (Phrase.value? (depthLimit - 1)))).map Json.obj).bind _
    cases hvalues : members.mapM (Entry.value? (Phrase.value? (depthLimit - 1))) with
    | none =>
      rw [hvalues] at hread
      obtain ⟨fault, hfault⟩ := hread
      rw [hfault]
      rfl
    | some values =>
      rw [hvalues] at hread
      obtain ⟨after, hok, hafter⟩ := hread
      -- Nothing but blanks is left.
      have hend : readEnd after = .ok () := by
        apply readEnd_blanks
        rw [hafter]
        exact line.after.blank
      rw [hok]
      simp only [bind, Except.bind, hend]
      rfl
  | _ =>
    have hother : ∀ inside members, line.core ≠ .obj inside members := by simp [hcore]
    -- A value that is no object does not begin with a brace.
    have hbrace : ∀ rest, (Cursor.start text.toList).skipBlanks.rest ≠ '\x7b' :: rest := by
      intro rest heq
      rw [hskip, hc] at heq
      exact Phrase.ne_brace hother hc (List.cons.inj heq).1
    obtain ⟨fault, hfault⟩ := exists_readTable_eq_error hbrace
    rw [hfault, ← hcore]
    cases hvalue : line.core.value? depthLimit with
    | none => rfl
    | some j =>
      rw [Option.bind_some, Phrase.members?_of_value? hother hvalue]
      rfl

end Texts

end DocRelay.Json
