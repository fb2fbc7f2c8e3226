import DocRelay.Proofs.Json.Canonical
import DocRelay.Proofs.Json.RoundTrip

namespace DocRelay.Json

/-!
# Writing again what was read

A value can be written in many ways: with blanks, with its members in any order and some of them
more than once, with escapes where none are needed.  Of all these texts the one that is written for
the canonical form of the value stands for the canonical form, if the numbers are integers of 64
bits.

* `Numeral.isWhole`, `Phrase.isWhole` — texts with such numbers only;
* `Phrase.value?_succ` — what stands for a value does so where deeper nesting is allowed;
* `Phrase.exists_reprint` — the text of the canonical form is of the grammar and stands for it.
-/

/-! ### Parts -/

/-- Of a list of values each comes of some part. -/
theorem exists_of_mem_mapM {α β : Type} {value? : α → Option β} {parts : List α}
    {values : List β} (h : parts.mapM value? = some values) {v : β} (hv : v ∈ values) :
    ∃ part ∈ parts, value? part = some v := by
  induction parts generalizing values with
  | nil =>
    obtain rfl := Option.some.inj h
    cases hv
  | cons part parts ih =>
    rw [List.mapM_cons] at h
    obtain ⟨first, hfirst, h⟩ := Option.bind_eq_some_iff.mp h
    obtain ⟨others, hothers, h⟩ := Option.bind_eq_some_iff.mp h
    obtain rfl := Option.some.inj h
    rcases List.mem_cons.mp hv with rfl | hv
    · exact ⟨part, List.mem_cons_self, hfirst⟩
    · obtain ⟨other, hmem, hother⟩ := ih hothers hv
      exact ⟨other, List.mem_cons_of_mem _ hmem, hother⟩

/-- Parts that keep their values make a list that does. -/
theorem mapM_of_mapM {α β : Type} {value? other? : α → Option β} {parts : List α}
    {values : List β} (hkeep : ∀ part ∈ parts, ∀ v, value? part = some v → other? part = some v)
    (h : parts.mapM value? = some values) : parts.mapM other? = some values := by
  induction parts generalizing values with
  | nil => exact h
  | cons part parts ih =>
    rw [List.mapM_cons] at h
    obtain ⟨first, hfirst, h⟩ := Option.bind_eq_some_iff.mp h
    obtain ⟨others, hothers, h⟩ := Option.bind_eq_some_iff.mp h
    have hrest := ih (fun p hp => hkeep p (List.mem_cons_of_mem _ hp)) hothers
    rw [List.mapM_cons, hkeep part List.mem_cons_self first hfirst, hrest]
    exact h

/-- What a member stands for is made of what its parts stand for. -/
theorem Entry.value?_eq_some_iff {α : Type} {part? : α → Option Json} {m : Entry α}
    {member : String × Json} :
    m.value? part? = some member
      ↔ glyphText? m.key = some member.1 ∧ part? m.value.core = some member.2 := by
  obtain ⟨key, v⟩ := member
  rw [Entry.value?]
  cases glyphText? m.key with
  | none => simp
  | some spelled => cases part? m.value.core <;> simp

/-- **Deeper nesting.** A tree that stands for a value does so if one level more is allowed. -/
theorem Phrase.value?_succ {depth : Nat} {p : Phrase} {j : Json} (h : p.value? depth = some j) :
    p.value? (depth + 1) = some j := by
  -- The depth bounds the nesting of the tree, so the induction is on it.
  induction depth generalizing p j with
  | zero =>
    cases p with
    | arr inside items => cases h
    | obj inside members => cases h
    | _ => exact h
  | succ depth ih =>
    cases p with
    | arr inside items =>
      rw [value?] at h ⊢
      obtain ⟨values, hvalues, hj⟩ := Option.map_eq_some_iff.mp h
      rw [mapM_of_mapM (fun item _ v hv => ih hv) hvalues, ← hj]
      rfl
    | obj inside members =>
      rw [value?] at h ⊢
      obtain ⟨values, hvalues, hj⟩ := Option.map_eq_some_iff.mp h
      have hkeep : ∀ m ∈ members, ∀ v, m.value? (value? depth) = some v →
          m.value? (value? (depth + 1)) = some v := by
        intro m _ v hv
        obtain ⟨hkey, hvalue⟩ := Entry.value?_eq_some_iff.mp hv
        exact Entry.value?_eq_some_iff.mpr ⟨hkey, ih hvalue⟩
      rw [mapM_of_mapM hkeep hvalues, ← hj]
      rfl
    | _ => exact h

/-! ### Integers -/

/-- The integer that the digits before the point spell. -/
def Numeral.integer (n : Numeral) : Int :=
  if n.minus then -digitsValue 0 n.whole.chars else digitsValue 0 n.whole.chars

/-- The number is written as an integer, and is one of 64 bits. -/
def Numeral.isWhole (n : Numeral) : Bool :=
  n.fraction.isNone && n.exponent.isNone && decide (IsWord n.integer)

mutual

/-- All numbers of the value are written as integers of 64 bits. -/
def Phrase.isWhole : Phrase → Bool
  | .num n => n.isWhole
  | .arr _ items => Phrase.areWhole items
  | .obj _ members => Phrase.haveWhole members
  | _ => true

/-- All numbers of the items are written as integers of 64 bits. -/
def Phrase.areWhole : List (Spaced Phrase) → Bool
  | [] => true
  | ⟨_, core, _⟩ :: rest => core.isWhole && Phrase.areWhole rest

/-- All numbers of the members are written as integers of 64 bits. -/
def Phrase.haveWhole : List (Entry Phrase) → Bool
  | [] => true
  | ⟨_, _, _, ⟨_, core, _⟩⟩ :: rest => core.isWhole && Phrase.haveWhole rest

end

theorem Phrase.areWhole_eq_all (items : List (Spaced Phrase)) :
    areWhole items = items.all fun i => i.core.isWhole := by
  induction items with
  | nil => rfl
  | cons i items ih => rw [areWhole, List.all_cons, ih]

theorem Phrase.haveWhole_eq_all (members : List (Entry Phrase)) :
    haveWhole members = members.all fun m => m.value.core.isWhole := by
  induction members with
  | nil => rfl
  | cons m members ih => rw [haveWhole, List.all_cons, ih]

/-- The negative zero. -/
def negativeZero : Json := .float (Binary64.ofInt 0).neg

/-- **What integers stand for**: themselves, except that there is a negative zero, which is a
    floating-point number. -/
theorem Numeral.value?_of_isWhole {n : Numeral} (h : n.isWhole = true) :
    (∃ m, IsWord m ∧ n.value? = some (.int m)) ∨ n.value? = some negativeZero := by
  obtain ⟨minus, whole, leading, fraction, exponent⟩ := n
  simp only [isWhole, Bool.and_eq_true, Option.isNone_iff_eq_none, decide_eq_true_eq] at h
  obtain ⟨⟨rfl, rfl⟩, hword⟩ := h
  have hvalue : value? ⟨minus, whole, leading, none, none⟩
      = some (integerOf minus (digitsValue 0 whole.chars)) := by
    -- Digits are left out only above the largest word, which an integer of 64 bits is not.
    have hmax : digitsValue 0 whole.chars ≤ maxWord := by
      rw [integer, IsWord, maxWord] at hword
      rw [maxWord]
      cases minus <;> simp at hword <;> omega
    rw [value?]
    simp only [absorb_eq hmax, beq_self_eq_true, if_true]
  rw [hvalue]
  cases minus with
  | false => exact .inl ⟨digitsValue 0 whole.chars, hword, rfl⟩
  | true =>
    have hword : IsWord (-digitsValue 0 whole.chars) := hword
    rw [integerOf]
    -- A zero behind a minus is no integer; every other number is negated.
    by_cases hzero : digitsValue 0 whole.chars = 0
    · right
      simp [hzero, negativeZero]
    · left
      have hlarge : ¬0x8000000000000000 < digitsValue 0 whole.chars := by
        have := hword.1
        omega
      refine ⟨-digitsValue 0 whole.chars, hword, ?_⟩
      simp [hzero, hlarge]

theorem canonical_negativeZero : negativeZero.canonical = negativeZero := by
  have hfinite : (Binary64.ofInt 0).neg.isFinite = true := by decide +kernel
  rw [negativeZero, canonical, if_pos hfinite]

/-- The negative zero as it is written. -/
theorem exists_numeral_negativeZero :
    ∃ n : Numeral, n.chars = render negativeZero ∧ n.value? = some negativeZero := by
  let zero : Digits := ⟨['0'], List.cons_ne_nil _ _, List.all_eq_true.mp rfl⟩
  have hscale : scale 4 (Binary64.ofInt 0) (-1) = some (Binary64.ofInt 0) := by decide +kernel
  refine ⟨⟨true, zero, fun _ => rfl, some zero, none⟩, by decide +kernel, ?_⟩
  have hvalue : Numeral.value? ⟨true, zero, fun _ => rfl, some zero, none⟩
      = float? true 0 (-1) := rfl
  have hcast : ((0 : Nat) : Int) = 0 := rfl
  rw [hvalue, float?, hcast, hscale]
  rfl

/-! ### Canonical forms -/

/-- The items of a canonical form are canonical forms of the items. -/
theorem exists_of_mem_canonicalItems {items : List Json} {j : Json}
    (h : j ∈ canonicalItems items) : ∃ item ∈ items, j = item.canonical := by
  induction items with
  | nil => cases h
  | cons item rest ih =>
    rcases List.mem_cons.mp h with rfl | h
    · exact ⟨item, List.mem_cons_self, rfl⟩
    · obtain ⟨other, hother, hj⟩ := ih h
      exact ⟨other, List.mem_cons_of_mem _ hother, hj⟩

/-- The members of a canonical form are canonical forms of the members. -/
theorem exists_of_mem_canonicalMembers {members : List (String × Json)} {m : String × Json}
    (h : m ∈ canonicalMembers members) : ∃ n ∈ members, m.2 = n.2.canonical := by
  induction members with
  | nil => cases h
  | cons n rest ih =>
    rcases List.mem_cons.mp h with rfl | h
    · exact ⟨n, List.mem_cons_self, rfl⟩
    · obtain ⟨other, hother, hm⟩ := ih h
      exact ⟨other, List.mem_cons_of_mem _ hother, hm⟩

/-- The text of the canonical form of a list is of the grammar, if those of its items are. -/
theorem exists_reprint_arr {depth : Nat} {values : List Json}
    (h : ∀ v ∈ values, ∃ q : Phrase, q.chars = render v.canonical ∧
      q.value? depth = some v.canonical) :
    ∃ q : Phrase, q.chars = render (Json.arr values).canonical ∧
      q.value? (depth + 1) = some (Json.arr values).canonical := by
  have hitems : ∀ v ∈ canonicalItems values, ∃ q : Phrase, q.chars = render v ∧
      q.value? depth = some v := by
    intro v hv
    obtain ⟨item, hitem, rfl⟩ := exists_of_mem_canonicalItems hv
    exact h item hitem
  obtain ⟨phrases, hchars, hall⟩ := exists_items hitems
  refine ⟨.arr .empty phrases, ?_, ?_⟩
  · rw [Phrase.chars, hchars, canonical, render, renderItems_eq]
    rfl
  · rw [Phrase.value?, hall]
    rfl

/-- The text of the canonical form of an object is of the grammar, if those of its values are. -/
theorem exists_reprint_obj {depth : Nat} {values : List (String × Json)}
    (h : ∀ v ∈ values, ∃ q : Phrase, q.chars = render v.2.canonical ∧
      q.value? depth = some v.2.canonical) :
    ∃ q : Phrase, q.chars = render (Json.obj values).canonical ∧
      q.value? (depth + 1) = some (Json.obj values).canonical := by
  -- Of two members with one key only the later one is written, so some values may be left out.
  have hmembers : ∀ v ∈ Table.ofPairs (canonicalMembers values), ∃ q : Phrase,
      q.chars = render v.2 ∧ q.value? depth = some v.2 := by
    intro v hv
    obtain ⟨n, hn, hv⟩ := exists_of_mem_canonicalMembers (Table.mem_of_mem_ofPairs hv)
    rw [hv]
    exact h n hn
  obtain ⟨entries, hchars, hall⟩ := exists_members hmembers
  refine ⟨.obj .empty entries, ?_, ?_⟩
  · rw [Phrase.chars, hchars, canonical, render, renderMembers_eq]
    rfl
  · rw [Phrase.value?, hall]
    rfl

/-- What has no parts is written again. -/
theorem exists_reprint_of_no_parts {depth : Nat} {p : Phrase} (h : p.isWhole = true)
    (hp : (∀ inside items, p ≠ .arr inside items) ∧ ∀ inside members, p ≠ .obj inside members)
    {j : Json} (hj : p.value? depth = some j) :
    ∃ q : Phrase, q.chars = render j.canonical ∧ q.value? depth = some j.canonical := by
  cases p with
  | null =>
    rw [Phrase.value?] at hj
    obtain rfl := Option.some.inj hj
    exact ⟨.null, by rw [Phrase.chars]; rfl, by rw [Phrase.value?]; rfl⟩
  | bool b =>
    rw [Phrase.value?] at hj
    obtain rfl := Option.some.inj hj
    exact ⟨.bool b, by cases b <;> rw [Phrase.chars] <;> rfl, by rw [Phrase.value?]; rfl⟩
  | num n =>
    rw [Phrase.value?] at hj
    obtain ⟨numeral, hchars, hvalue⟩ : ∃ numeral : Numeral,
        numeral.chars = render j.canonical ∧ numeral.value? = some j.canonical := by
      -- A zero behind a minus is the one whole number that is no integer, and keeps its sign.
      rcases Numeral.value?_of_isWhole h with ⟨m, hm, hn⟩ | hn
      · obtain rfl := Option.some.inj (hn.symm.trans hj)
        exact exists_numeral hm
      · obtain rfl := Option.some.inj (hn.symm.trans hj)
        rw [canonical_negativeZero]
        exact exists_numeral_negativeZero
    exact ⟨.num numeral, by rw [Phrase.chars, hchars], by rw [Phrase.value?, hvalue]⟩
  | str glyphs =>
    rw [Phrase.value?] at hj
    obtain ⟨text, -, rfl⟩ := Option.map_eq_some_iff.mp hj
    obtain ⟨others, hchars, htext⟩ := exists_glyphs text
    exact ⟨.str others, by rw [Phrase.chars, hchars]; rfl, by rw [Phrase.value?, htext]; rfl⟩
  | arr inside items => exact absurd rfl (hp.1 inside items)
  | obj inside members => exact absurd rfl (hp.2 inside members)

/-- **Writing again.** The text of the canonical form of what was read is of the grammar, and
    stands for the canonical form. -/
theorem Phrase.exists_reprint {depth : Nat} {p : Phrase} (h : p.isWhole = true) {j : Json}
    (hj : p.value? depth = some j) :
    ∃ q : Phrase, q.chars = render j.canonical ∧ q.value? depth = some j.canonical := by
  -- Only the depth goes down with the nesting; the values inside come from the lists of values.
  induction depth generalizing p j with
  | zero =>
    cases p with
    | arr inside items => cases hj
    | obj inside members => cases hj
    | _ => exact exists_reprint_of_no_parts h (by simp) hj
  | succ depth ih =>
    cases p with
    | arr inside items =>
      rw [isWhole, areWhole_eq_all] at h
      rw [value?] at hj
      obtain ⟨values, hvalues, rfl⟩ := Option.map_eq_some_iff.mp hj
      refine exists_reprint_arr fun v hv => ?_
      obtain ⟨part, hpart, hvalue⟩ := exists_of_mem_mapM hvalues hv
      exact ih (List.all_eq_true.mp h part hpart) hvalue
    | obj inside members =>
      rw [isWhole, haveWhole_eq_all] at h
      rw [value?] at hj
      obtain ⟨values, hvalues, rfl⟩ := Option.map_eq_some_iff.mp hj
      refine exists_reprint_obj fun v hv => ?_
      obtain ⟨part, hpart, hvalue⟩ := exists_of_mem_mapM hvalues hv
      exact ih (List.all_eq_true.mp h part hpart) (Entry.value?_eq_some_iff.mp hvalue).2
    | _ => exact exists_reprint_of_no_parts h (by simp) hj

end DocRelay.Json
