import DocRelay.Proofs.Text.Utf8
import DocRelay.Text.Blank
import DocRelay.Text.Lowercase

namespace DocRelay.Text

/-!
# What lower case makes of a character

The table of lower case leads from its runs to characters that are on no run, so that lower case is
reached in one step.  It does not lead to white space, nor to any character before the small
letters.

* `CaseRun.codes`, `CaseRun.targets`, `moves` — where the runs are and where they lead to;
* `bits`, `disjoint_of_bits` — sets of code points as numbers, and what they have in common;
* `lowercase_of_mem`, `le_of_mem_lowercase`, `isBlank_of_mem_lowercase` — a character in lower case
  has its lower case already, and is no white space unless nothing was changed;
* `lowercase_of_toLower_eq` — ASCII letters that differ in case only have the same lower case.
-/

/-! ### Runs -/

/-- The code points of a run. -/
def CaseRun.codes (r : CaseRun) : List Nat :=
  (List.range ((r.last - r.first) / r.step + 1)).map fun i => r.first + i * r.step

/-- The code points that a run leads to. -/
def CaseRun.targets (r : CaseRun) : List Nat :=
  r.codes.map fun code : Nat => ((code : Int) + r.shift).toNat

/-- The code points that a run covers are its code points. -/
theorem CaseRun.mem_codes {r : CaseRun} {code : Nat} (h : r.covers code = true) :
    code ∈ r.codes := by
  simp only [covers, Bool.and_eq_true, decide_eq_true_eq, beq_iff_eq] at h
  obtain ⟨⟨hfirst, hlast⟩, hstep⟩ := h
  refine List.mem_map.mpr ⟨(code - r.first) / r.step, List.mem_range.mpr ?_, ?_⟩
  · exact Nat.lt_succ_of_le (Nat.div_le_div_right (by omega))
  · have hmul := Nat.div_mul_cancel (Nat.dvd_of_mod_eq_zero hstep)
    omega

/-- The runs of the table, and the two characters that `İ` becomes. -/
def moves : List CaseRun :=
  ⟨0x130, 0x130, 1, -199⟩ :: ⟨0x130, 0x130, 1, 471⟩ :: caseRuns

theorem mem_moves {r : CaseRun} (h : r ∈ caseRuns) : r ∈ moves :=
  List.mem_cons_of_mem _ (List.mem_cons_of_mem _ h)

/-- All code points that are not in lower case. -/
def cased : List Nat := moves.flatMap CaseRun.codes

/-- All code points that the others lead to. -/
def lowered : List Nat := moves.flatMap CaseRun.targets

/-! ### Sets as numbers -/

/-- The number that has these bits. -/
def bits (ns : List Nat) : Nat :=
  ns.foldr (fun n m => 1 <<< n ||| m) 0

theorem testBit_bits {n : Nat} {ns : List Nat} (h : n ∈ ns) : (bits ns).testBit n = true := by
  induction ns with
  | nil => cases h
  | cons m rest ih =>
    show (1 <<< m ||| bits rest).testBit n = true
    rw [Nat.testBit_or]
    rcases List.mem_cons.mp h with rfl | h
    · simp [Nat.one_shiftLeft]
    · simp [ih h]

/-- **Numbers without a common bit** stand for sets without a common element. -/
theorem disjoint_of_bits {ns ms : List Nat} (h : bits ns &&& bits ms = 0) {n : Nat} (hn : n ∈ ns) :
    n ∉ ms := by
  intro hm
  have hbit := congrArg (·.testBit n) h
  simp [testBit_bits hn, testBit_bits hm] at hbit

/-- White space beyond the ASCII characters. -/
def wideBlanks : List Nat :=
  [0x85, 0xA0, 0x1680, 0x2000, 0x2001, 0x2002, 0x2003, 0x2004, 0x2005, 0x2006, 0x2007, 0x2008,
    0x2009, 0x200A, 0x2028, 0x2029, 0x202F, 0x205F, 0x3000]

theorem mem_wideBlanks {c : Char} (h : isBlank c = true) :
    c.toNat ≤ 0x20 ∨ c.toNat ∈ wideBlanks := by
  simp only [isBlank, Bool.or_eq_true, Bool.and_eq_true, decide_eq_true_eq, beq_iff_eq] at h
  simp only [wideBlanks, List.mem_cons, List.not_mem_nil, or_false]
  omega

/-- The runs, what they lead to, and white space have nothing in common. -/
theorem bits_apart : bits lowered &&& bits cased = 0 ∧
    bits lowered &&& bits wideBlanks = 0 ∧ bits wideBlanks &&& bits cased = 0 := by decide +kernel

/-- The runs lead to characters, none of them before the small letters. -/
theorem lowered_bounds : ∀ n ∈ lowered, 0x61 ≤ n ∧ n.isValidChar := by decide +kernel

/-! ### Characters -/

/-- A character on no run is in lower case. -/
theorem lowercase_eq_self {c : Char} (h : c.toNat ∉ cased) : lowercase c = [c] := by
  have hdotted : (c.toNat == 0x130) = false := by
    rw [beq_eq_false_iff_ne]
    intro heq
    rw [heq] at h
    exact absurd (by decide +kernel) h
  have hnone : caseRuns.find? (·.covers c.toNat) = none := by
    rw [List.find?_eq_none]
    intro r hr hcovers
    exact h (List.mem_flatMap.mpr ⟨r, mem_moves hr, CaseRun.mem_codes hcovers⟩)
  simp [lowercase, hdotted, lowerCode, hnone]

/-- A code point that is put in lower case stays as it is, or goes where its run leads. -/
theorem lowerCode_cases (code : Nat) : lowerCode code = code ∨ lowerCode code ∈ lowered := by
  by_cases hsmall : code < 0x41
  · simp [lowerCode, hsmall]
  · rw [lowerCode, if_neg hsmall]
    cases hfind : caseRuns.find? (·.covers code) with
    | none => simp
    | some r =>
      right
      have hmoves := mem_moves (List.mem_of_find?_eq_some hfind)
      have hcovers := List.find?_some hfind
      exact List.mem_flatMap.mpr
        ⟨r, hmoves, List.mem_map.mpr ⟨code, CaseRun.mem_codes hcovers, rfl⟩⟩

/-- **Lower case** leaves a character as it is, or leads to where the runs lead. -/
theorem lowercase_cases (c : Char) : lowercase c = [c] ∨ ∀ d ∈ lowercase c, d.toNat ∈ lowered := by
  by_cases hdotted : c.toNat = 0x130
  · right
    intro d hd
    have hmem : d = 'i' ∨ d = Char.ofNat 0x307 := by simpa [lowercase, hdotted] using hd
    rcases hmem with rfl | rfl
    · exact List.mem_cons_self
    · exact List.mem_cons_of_mem _ List.mem_cons_self
  · have hlower : lowercase c = [Char.ofNat (lowerCode c.toNat)] := by simp [lowercase, hdotted]
    rw [hlower]
    rcases lowerCode_cases c.toNat with hself | hmem
    · left
      rw [hself, Char.ofNat_toNat]
    · right
      intro d hd
      obtain rfl := List.mem_singleton.mp hd
      rwa [toNat_ofNat (lowered_bounds _ hmem).2]

/-- **Lower case is reached in one step.** -/
theorem lowercase_of_mem {c d : Char} (h : d ∈ lowercase c) : lowercase d = [d] := by
  rcases lowercase_cases c with hself | hmoved
  · rw [hself] at h
    obtain rfl := List.mem_singleton.mp h
    exact hself
  · exact lowercase_eq_self (disjoint_of_bits bits_apart.1 (hmoved d h))

/-- What lower case changes becomes a small letter, or something behind these. -/
theorem le_of_mem_lowercase {c d : Char} (h : d ∈ lowercase c) : d = c ∨ 0x61 ≤ d.toNat := by
  rcases lowercase_cases c with hself | hmoved
  · rw [hself] at h
    exact .inl (List.mem_singleton.mp h)
  · exact .inr (lowered_bounds _ (hmoved d h)).1

/-- Lower case makes no white space. -/
theorem isBlank_of_mem_lowercase {c d : Char} (h : d ∈ lowercase c) (hc : isBlank c = false) :
    isBlank d = false := by
  rcases lowercase_cases c with hself | hmoved
  · rw [hself] at h
    rw [List.mem_singleton.mp h, hc]
  · have hmem := hmoved d h
    rw [Bool.eq_false_iff]
    intro hblank
    have hbound := (lowered_bounds _ hmem).1
    rcases mem_wideBlanks hblank with hsmall | hwide
    · omega
    · exact disjoint_of_bits bits_apart.2.1 hmem hwide

/-- White space has no other case. -/
theorem lowercase_of_isBlank {c : Char} (h : isBlank c = true) : lowercase c = [c] := by
  rcases mem_wideBlanks h with hsmall | hwide
  · exact lowercase_of_lt (by omega)
  · exact lowercase_eq_self (disjoint_of_bits bits_apart.2.2 hwide)

theorem lowercase_ne_nil (c : Char) : lowercase c ≠ [] := by
  unfold lowercase
  split <;> simp

/-! ### ASCII letters -/

/-- What holds of the first 128 characters holds of the ASCII characters. -/
theorem forall_ascii {p : Char → Prop} (h : ∀ n < 0x80, p (Char.ofNat n)) {c : Char}
    (hc : c.toNat < 0x80) : p c := by
  have hchar := h c.toNat hc
  rwa [Char.ofNat_toNat] at hchar

/-- The lower case of the ASCII characters. -/
theorem lowercase_of_ascii {c : Char} (h : c.toNat < 0x80) : lowercase c = [c.toLower] :=
  forall_ascii (p := fun c => lowercase c = [c.toLower]) (by decide +kernel) h

/-- Beyond the ASCII characters there are no ASCII letters. -/
theorem toLower_of_le {c : Char} (h : 0x80 ≤ c.toNat) : c.toLower = c := by
  have hbeyond : ¬(c.val ≥ 'A'.val ∧ c.val ≤ 'Z'.val) := by
    rintro ⟨-, hle⟩
    have hsmall : c.toNat ≤ 0x5A := hle
    omega
  exact dif_neg hbeyond

/-- The small letters of the ASCII characters are ASCII characters too, and of no others. -/
theorem toLower_lt_iff {c : Char} : c.toLower.toNat < 0x80 ↔ c.toNat < 0x80 := by
  constructor
  · intro h
    refine Nat.lt_of_not_le fun hbeyond => ?_
    rw [toLower_of_le hbeyond] at h
    omega
  · exact forall_ascii (p := fun c => c.toLower.toNat < 0x80) (by decide)

/-- **ASCII letters** that differ in case only have the same lower case. -/
theorem lowercase_of_toLower_eq {c d : Char} (h : c.toLower = d.toLower) :
    lowercase c = lowercase d := by
  have hsame : c.toNat < 0x80 ↔ d.toNat < 0x80 := by rw [← toLower_lt_iff, h, toLower_lt_iff]
  by_cases hc : c.toNat < 0x80
  · rw [lowercase_of_ascii hc, lowercase_of_ascii (hsame.mp hc), h]
  · have hd : ¬d.toNat < 0x80 := fun hd => hc (hsame.mpr hd)
    rw [toLower_of_le (by omega), toLower_of_le (by omega)] at h
    rw [h]

end DocRelay.Text
