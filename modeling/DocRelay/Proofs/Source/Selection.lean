import DocRelay.Proofs.Wheel.Versions
import DocRelay.Source.Directory

namespace DocRelay.DirectorySource

/-!
# Which wheel meets a requirement

The wheels of a folder that match a requirement challenge each other in the order in which the
folder yields them.  The one that is left in the end is the highest of them whatever the order, if
there is a highest one.  There is none where the order of versions goes round in a circle; then the
order of the folder decides.

* `Candidate`, `candidates` — the wheels that match, with their files;
* `Below`, `IsHighest` — the order of candidates, and the one above all others;
* `best_eq` — the best file is the one that is left after all challenges;
* `below_trans` — the order of candidates whose versions are alike;
* `best_selects` — when a file is found, and when it is the same in every order;
* `best_goes_round` — three files of which no one is the highest.
-/

open Wheel Std

/-- A wheel that matches, and its file. -/
abbrev Candidate := FileName × String

/-! ### Candidates and their order -/

section Candidates

variable (name : String) (version : Option String)

/-- The wheel of a file, if it matches the requirement. -/
def candidate? (file : String) : Option Candidate :=
  (FileName.parse? file).bind fun wheel =>
    if wheel.matches name version then some (wheel, file) else none

/-- The wheels of the files that match the requirement, in the order of the files. -/
def candidates (files : List String) : List Candidate :=
  files.filterMap (candidate? name version)

variable {name version}

/-- What a candidate is. -/
theorem candidate?_eq_some_iff {file : String} {c : Candidate} :
    candidate? name version file = some c ↔
      c.2 = file ∧ FileName.parse? file = some c.1 ∧ c.1.matches name version = true := by
  obtain ⟨wheel, other⟩ := c
  rw [candidate?, Option.bind_eq_some_iff]
  constructor
  · rintro ⟨parsed, hparse, h⟩
    split at h
    · rename_i hmatches
      cases h
      exact ⟨rfl, hparse, hmatches⟩
    · cases h
  · rintro ⟨rfl, hparse, hmatches⟩
    exact ⟨wheel, hparse, if_pos hmatches⟩

/-- Which candidates there are. -/
theorem mem_candidates {files : List String} {c : Candidate} :
    c ∈ candidates name version files ↔
      c.2 ∈ files ∧ FileName.parse? c.2 = some c.1 ∧ c.1.matches name version = true := by
  rw [candidates, List.mem_filterMap]
  constructor
  · rintro ⟨file, hfile, h⟩
    obtain ⟨rfl, hparse, hmatches⟩ := candidate?_eq_some_iff.mp h
    exact ⟨hfile, hparse, hmatches⟩
  · rintro ⟨hfile, h⟩
    exact ⟨c.2, hfile, candidate?_eq_some_iff.mpr ⟨rfl, h⟩⟩

/-- A file is one candidate at most. -/
theorem eq_of_mem_candidates {files : List String} {c d : Candidate}
    (hc : c ∈ candidates name version files) (hd : d ∈ candidates name version files)
    (h : c.2 = d.2) : c = d := by
  obtain ⟨-, hparse, -⟩ := mem_candidates.mp hc
  obtain ⟨-, hparse', -⟩ := mem_candidates.mp hd
  rw [h, hparse'] at hparse
  exact Prod.ext (Option.some.inj hparse).symm h

end Candidates

/-- The first candidate is below the second: its version is lower or, of equal versions, its name
    comes earlier. -/
def Below (a b : Candidate) : Prop :=
  compareVersions a.1.version b.1.version = .lt ∨
    compareVersions a.1.version b.1.version = .eq ∧ a.2 < b.2

instance (a b : Candidate) : Decidable (Below a b) :=
  inferInstanceAs (Decidable (_ ∨ _ ∧ _))

/-- A candidate above all others. -/
structure IsHighest (cs : List Candidate) (c : Candidate) : Prop where
  mem : c ∈ cs
  above : ∀ other ∈ cs, other ≠ c → Below other c

/-- The better of two candidates is the one above. -/
theorem isBetter_iff {a b : Candidate} : isBetter a b = true ↔ Below a b := by
  have hswap : compareVersions b.1.version a.1.version
      = (compareVersions a.1.version b.1.version).swap := OrientedCmp.eq_swap
  rw [isBetter, Below, hswap]
  cases compareVersions a.1.version b.1.version <;> simp

/-- Of two candidates only one is below the other. -/
theorem Below.asymm {a b : Candidate} (h : Below a b) : ¬Below b a := by
  rintro (hlt | ⟨heq, hname⟩)
  · have hgt := OrientedCmp.gt_of_lt hlt
    rcases h with h | ⟨h, -⟩ <;> rw [hgt] at h <;> cases h
  · rw [OrientedCmp.eq_comm] at heq
    rcases h with h | ⟨-, h⟩
    · rw [heq] at h
      cases h
    · exact String.lt_asymm h hname

/-- Two candidates of different files are one below the other. -/
theorem below_or_below {a b : Candidate} (h : a.2 ≠ b.2) : Below a b ∨ Below b a := by
  cases hc : compareVersions a.1.version b.1.version with
  | lt => exact .inl (.inl hc)
  | gt => exact .inr (.inl (OrientedCmp.lt_of_gt hc))
  | eq =>
    rcases Std.lt_trichotomy a.2 b.2 with hlt | heq | hgt
    · exact .inl (.inr ⟨hc, hlt⟩)
    · exact absurd heq h
    · exact .inr (.inr ⟨OrientedCmp.eq_symm hc, hgt⟩)

/-! ### Challenges -/

/-- The candidate that is left of two. -/
def challenge (best new : Candidate) : Candidate :=
  if isBetter best new then new else best

/-- The candidate that is left of all. -/
def champion? : List Candidate → Option Candidate
  | [] => none
  | c :: cs => some (cs.foldl challenge c)

section Champions

variable {c m : Candidate} {cs : List Candidate}

/-- The higher candidate is left. -/
theorem challenge_of_below (h : Below c m) : challenge c m = m :=
  if_pos (isBetter_iff.mpr h)

/-- The best candidate so far is left if it is not below. -/
theorem challenge_of_not_below (h : ¬Below c m) : challenge c m = c :=
  if_neg fun hbetter => h (isBetter_iff.mp hbetter)

/-- One of the two candidates is left. -/
theorem challenge_cases (best new : Candidate) :
    challenge best new = best ∨ challenge best new = new := by
  rw [challenge]
  split
  · exact .inr rfl
  · exact .inl rfl

/-- A challenge brings in no candidate. -/
theorem challenge_subset {d : Candidate} : challenge c d :: cs ⊆ c :: d :: cs := by
  intro other hother
  rcases List.mem_cons.mp hother with rfl | hother
  · rcases challenge_cases c d with h | h <;> simp [h]
  · exact List.mem_cons_of_mem _ (List.mem_cons_of_mem _ hother)

/-- Some candidate is left. -/
theorem foldl_challenge_mem : cs.foldl challenge c ∈ c :: cs := by
  induction cs generalizing c with
  | nil => exact List.mem_cons_self
  | cons d cs ih => exact challenge_subset ih

/-- **The highest candidate is left**, wherever it comes. -/
theorem champion?_of_isHighest (h : IsHighest cs m) : champion? cs = some m := by
  obtain ⟨hmem, habove⟩ := h
  cases cs with
  | nil => cases hmem
  | cons c cs =>
    rw [champion?]
    congr 1
    induction cs generalizing c with
    | nil => exact (List.mem_singleton.mp hmem).symm
    | cons d cs ih =>
      rw [List.foldl_cons]
      -- It wins its own challenge, and which one is left of two others makes no difference.
      apply ih
      · have hwins : ∀ other ∈ c :: d :: cs, challenge m other = m ∧ challenge other m = m := by
          intro other hother
          by_cases he : other = m
          · rw [he]
            exact ⟨(challenge_cases m m).elim id id, (challenge_cases m m).elim id id⟩
          · have hbelow := habove other hother he
            exact ⟨challenge_of_not_below hbelow.asymm, challenge_of_below hbelow⟩
        rcases List.mem_cons.mp hmem with rfl | hmem
        · rw [(hwins d (by simp)).1]
          exact List.mem_cons_self
        · rcases List.mem_cons.mp hmem with rfl | hmem
          · rw [(hwins c (by simp)).2]
            exact List.mem_cons_self
          · exact List.mem_cons_of_mem _ hmem
      · intro other hother
        exact habove other (challenge_subset hother)

/-- **In an order the candidate that is left is above all others.** -/
theorem foldl_challenge_above
    (total : ∀ a ∈ c :: cs, ∀ b ∈ c :: cs, a ≠ b → Below a b ∨ Below b a)
    (trans : ∀ a ∈ c :: cs, ∀ b ∈ c :: cs, ∀ d ∈ c :: cs, Below a b → Below b d → Below a d) :
    ∀ other ∈ c :: cs, other ≠ cs.foldl challenge c → Below other (cs.foldl challenge c) := by
  induction cs generalizing c with
  | nil =>
    intro other hother hne
    exact absurd (List.mem_singleton.mp hother) hne
  | cons d cs ih =>
    have hc : c ∈ c :: d :: cs := List.mem_cons_self
    have hd : d ∈ c :: d :: cs := List.mem_cons_of_mem _ List.mem_cons_self
    have hleft := ih (c := challenge c d)
      (fun a ha b hb => total a (challenge_subset ha) b (challenge_subset hb))
      (fun a ha b hb e he =>
        trans a (challenge_subset ha) b (challenge_subset hb) e (challenge_subset he))
    intro other hother hne
    rw [List.foldl_cons] at hne ⊢
    by_cases hstays : other ∈ challenge c d :: cs
    · exact hleft other hstays hne
    · -- It is the one of the first two that lost, and so is below the one that won.
      have hlost : Below other (challenge c d) := by
        rw [List.mem_cons, not_or] at hstays
        by_cases hcd : Below c d
        · rw [challenge_of_below hcd] at hstays ⊢
          obtain rfl : other = c := by simpa [hstays] using hother
          exact hcd
        · rw [challenge_of_not_below hcd] at hstays ⊢
          obtain rfl : other = d := by simpa [hstays] using hother
          exact (total other hd c hc hstays.1).resolve_right hcd
      by_cases hlast : challenge c d = cs.foldl challenge (challenge c d)
      · rwa [← hlast]
      · exact trans other hother _ (challenge_subset List.mem_cons_self) _
          (challenge_subset foldl_challenge_mem) hlost (hleft _ List.mem_cons_self hlast)

end Champions

/-! ### The best file -/

section Best

variable {name : String} {version : Option String}

/-- One file more: if it is a candidate, it challenges the best one so far. -/
theorem better_eq (found : Option Candidate) (file : String) :
    better name version found file
      = (candidate? name version file).elim found fun new =>
          some (found.elim new fun old => challenge old new) := by
  rw [better, candidate?]
  cases FileName.parse? file with
  | none => rfl
  | some wheel =>
    rw [Option.bind_some]
    dsimp only
    by_cases hmatches : wheel.matches name version = true
    · rw [if_pos hmatches, if_pos hmatches]
      cases found with
      | none => rfl
      | some old =>
        show _ = some (challenge old (wheel, file))
        rw [challenge]
        dsimp only
        split <;> rfl
    · rw [if_neg hmatches, if_neg hmatches]
      rfl

/-- The candidates among the files challenge the best one so far. -/
theorem foldl_better (files : List String) (found : Candidate) :
    files.foldl (better name version) (some found)
      = some ((candidates name version files).foldl challenge found) := by
  induction files generalizing found with
  | nil => rfl
  | cons file files ih =>
    rw [List.foldl_cons, better_eq, candidates, List.filterMap_cons]
    cases candidate? name version file with
    | none => exact ih found
    | some new => exact ih (challenge found new)

/-- **The best file** is that of the candidate that is left. -/
theorem best_eq (files : List String) :
    best name version files = (champion? (candidates name version files)).map Prod.snd := by
  rw [best]
  congr 1
  induction files with
  | nil => rfl
  | cons file files ih =>
    rw [List.foldl_cons, better_eq, candidates, List.filterMap_cons]
    cases candidate? name version file with
    | none => exact ih
    | some new => exact foldl_better files new

/-- A candidate is left if there is one. -/
theorem champion?_mem {cs : List Candidate} {c : Candidate} (h : champion? cs = some c) :
    c ∈ cs := by
  cases cs with
  | nil => cases h
  | cons first rest =>
    obtain rfl := Option.some.inj h
    exact foldl_challenge_mem

/-- The order of candidates whose versions are alike. -/
theorem below_trans {a b c : Candidate}
    (hab : alike (segments a.1.version) (segments b.1.version) = true)
    (hbc : alike (segments b.1.version) (segments c.1.version) = true)
    (hac : alike (segments a.1.version) (segments c.1.version) = true)
    (h : Below a b) (h' : Below b c) : Below a c := by
  simp only [Below, compareVersions, compareSegments_of_alike hab, compareSegments_of_alike hbc,
    compareSegments_of_alike hac] at *
  rcases h with h | ⟨h, hname⟩
  · rcases h' with h' | ⟨h', -⟩
    · exact .inl (TransCmp.lt_trans h h')
    · exact .inl (TransCmp.lt_of_lt_of_eq h h')
  · rcases h' with h' | ⟨h', hname'⟩
    · exact .inl (TransCmp.lt_of_eq_of_lt h h')
    · exact .inr ⟨TransCmp.eq_trans h h', String.lt_trans hname hname'⟩

/-- The versions of every two candidates are alike. -/
def AllAlike (cs : List Candidate) : Prop :=
  ∀ a ∈ cs, ∀ b ∈ cs, alike (segments a.1.version) (segments b.1.version) = true

instance (cs : List Candidate) : Decidable (AllAlike cs) :=
  inferInstanceAs (Decidable (∀ a ∈ cs, ∀ b ∈ cs, _))

/-- Of candidates that are alike, the one that is left is the highest. -/
theorem isHighest_of_allAlike {files : List String} {c : Candidate}
    (h : AllAlike (candidates name version files))
    (hc : champion? (candidates name version files) = some c) :
    IsHighest (candidates name version files) c := by
  refine ⟨champion?_mem hc, ?_⟩
  have total : ∀ a ∈ candidates name version files, ∀ b ∈ candidates name version files,
      a ≠ b → Below a b ∨ Below b a := fun a ha b hb hne =>
    below_or_below fun hfile => hne (eq_of_mem_candidates ha hb hfile)
  have trans : ∀ a ∈ candidates name version files, ∀ b ∈ candidates name version files,
      ∀ d ∈ candidates name version files, Below a b → Below b d → Below a d :=
    fun a ha b hb d hd => below_trans (h a ha b hb) (h b hb d hd) (h a ha d hd)
  generalize candidates name version files = cs at hc total trans
  cases cs with
  | nil => cases hc
  | cons first rest =>
    obtain rfl := Option.some.inj hc
    exact foldl_challenge_above total trans

/-- A candidate that is left in every order is the highest: a candidate that is not below it would
    beat it, if it came right behind it. -/
theorem isHighest_of_perm {files : List String} (distinct : files.Nodup) {c : Candidate}
    (hc : c ∈ candidates name version files)
    (h : ∀ others, others.Perm files → best name version others = some c.2) :
    IsHighest (candidates name version files) c := by
  refine ⟨hc, fun other hother hne => ?_⟩
  have hfile : c.2 ≠ other.2 := fun he => hne (eq_of_mem_candidates hother hc he.symm)
  refine (below_or_below hfile.symm).resolve_right fun hbelow => ?_
  obtain ⟨hcfile, hcandidate⟩ := mem_candidates.mp hc
  obtain ⟨hofile, hocandidate⟩ := mem_candidates.mp hother
  have hperm : (c.2 :: other.2 :: (files.erase c.2).erase other.2).Perm files :=
    ((List.perm_cons_erase ((List.mem_erase_of_ne hfile.symm).mpr hofile)).symm.cons c.2).trans
      (List.perm_cons_erase hcfile).symm
  have hnodup := (hperm.nodup_iff).mpr distinct
  have hbest := h _ hperm
  generalize (files.erase c.2).erase other.2 = rest at hnodup hbest
  have hfirst : candidate? name version c.2 = some c :=
    candidate?_eq_some_iff.mpr ⟨rfl, hcandidate⟩
  have hsecond : candidate? name version other.2 = some other :=
    candidate?_eq_some_iff.mpr ⟨rfl, hocandidate⟩
  rw [best_eq, candidates, List.filterMap_cons, hfirst, List.filterMap_cons, hsecond] at hbest
  dsimp only [champion?] at hbest
  rw [List.foldl_cons, challenge_of_below hbelow] at hbest
  -- What is left comes from the files behind the first one, and those are other files.
  have hleft : (rest.filterMap (candidate? name version)).foldl challenge other
      ∈ other :: rest.filterMap (candidate? name version) := foldl_challenge_mem
  refine (List.nodup_cons.mp hnodup).1 ?_
  rw [← Option.some.inj hbest]
  rcases List.mem_cons.mp hleft with hleft | hleft
  · rw [hleft]
    exact List.mem_cons_self
  · exact List.mem_cons_of_mem _ (mem_candidates.mp hleft).1

/-- The highest candidate is the best file in every order. -/
theorem best_of_isHighest {files others : List String} {c : Candidate}
    (h : IsHighest (candidates name version files) c) (hperm : others.Perm files) :
    best name version others = some c.2 := by
  have hcandidates : (candidates name version others).Perm (candidates name version files) :=
    hperm.filterMap _
  have hhighest : IsHighest (candidates name version others) c :=
    ⟨hcandidates.mem_iff.mpr h.mem, fun other hother =>
      h.above other (hcandidates.mem_iff.mp hother)⟩
  rw [best_eq, champion?_of_isHighest hhighest]
  rfl

/-- **Which file is found.** Among files with different names a file is found exactly if one of
    them is a wheel that matches the requirement, and it is such a one.  It is found in every order
    of the files exactly if no other candidate is above it: the versions of the others are lower, or
    equal and their names come earlier.  So it is if the versions of the candidates are alike. -/
theorem best_selects {files : List String} (distinct : files.Nodup) (name : String)
    (version : Option String) :
    ((best name version files).isSome ↔ ∃ file ∈ files, ∃ wheel,
      FileName.parse? file = some wheel ∧ wheel.matches name version = true) ∧
    ∀ file, best name version files = some file → ∃ wheel,
      (file ∈ files ∧ FileName.parse? file = some wheel ∧ wheel.matches name version = true) ∧
      ((∀ others, others.Perm files → best name version others = some file) ↔
        IsHighest (candidates name version files) (wheel, file)) ∧
      (AllAlike (candidates name version files) →
        IsHighest (candidates name version files) (wheel, file)) := by
  refine ⟨?_, fun file hfile => ?_⟩
  · -- The best of the candidates is missing only where there are no candidates.
    have hsome : (best name version files).isSome ↔ candidates name version files ≠ [] := by
      rw [best_eq]
      cases candidates name version files <;> simp [champion?]
    rw [hsome]
    constructor
    · intro hne
      obtain ⟨c, hc⟩ := List.exists_mem_of_ne_nil _ hne
      obtain ⟨hmem, hcandidate⟩ := mem_candidates.mp hc
      exact ⟨c.2, hmem, c.1, hcandidate⟩
    · rintro ⟨file, hmem, wheel, hcandidate⟩
      exact List.ne_nil_of_mem (a := (wheel, file)) (mem_candidates.mpr ⟨hmem, hcandidate⟩)
  · rw [best_eq, Option.map_eq_some_iff] at hfile
    obtain ⟨⟨wheel, file'⟩, hleft, rfl⟩ := hfile
    have hmem := champion?_mem hleft
    refine ⟨wheel, mem_candidates.mp hmem, ⟨isHighest_of_perm distinct hmem, ?_⟩, fun hall =>
      isHighest_of_allAlike hall hleft⟩
    exact fun h others hperm => best_of_isHighest h hperm

end Best

/-- Of three wheels the one of version 1.10 is the highest, and so it is found in every order. -/
theorem best_selects_numeric :
    let files := ["pkg-1.9-py3-none-any.whl", "notes.txt", "pkg-1.10-py3-none-any.whl",
      "Pkg-1.2-1-py3-none-any.whl"]
    files.Nodup ∧ AllAlike (candidates "pkg" none files) ∧
    ∀ others, others.Perm files → best "pkg" none others = some "pkg-1.10-py3-none-any.whl" := by
  intro files
  have distinct : files.Nodup := by decide +kernel
  have hall : AllAlike (candidates "pkg" none files) := by decide +kernel
  have hbest : best "pkg" none files = some "pkg-1.10-py3-none-any.whl" := by decide +kernel
  obtain ⟨wheel, -, hsame, hhighest⟩ := (best_selects distinct "pkg" none).2 _ hbest
  exact ⟨distinct, hall, hsame.mpr (hhighest hall)⟩

/-- **No highest wheel.** Version 2 is below 10, 10 below 1a and 1a below 2.  So the last one of
    the three files is found, whichever it is, although there is a higher one. -/
theorem best_goes_round :
    let two := "pkg-2-py3-none-any.whl"
    let ten := "pkg-10-py3-none-any.whl"
    let one := "pkg-1a-py3-none-any.whl"
    [ten, one, two].Perm [two, ten, one] ∧ [two, ten, one].Nodup ∧
    best "pkg" none [two, ten, one] = some one ∧ best "pkg" none [ten, one, two] = some two ∧
    compareVersions "10" "2" = .gt ∧ compareVersions "1a" "10" = .gt ∧
    compareVersions "2" "1a" = .gt := by
  decide +kernel

end DocRelay.DirectorySource
