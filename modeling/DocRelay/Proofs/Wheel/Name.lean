import DocRelay.Proofs.Text.Lowercase
import DocRelay.Proofs.Text.Split
import DocRelay.Wheel.Name
import Mathlib.Data.List.Chain
import Mathlib.Logic.Relation

namespace DocRelay.Wheel

/-!
# Normal forms of names

Of all spellings of a name exactly one is in normal form: in lower case, with single dashes for
separators and without blanks around it.  It can be reached from every other spelling by changing
case, separators and blanks around the name, and two names that can be changed into each other in
this way have it in common.

* `IsNormal`, `isNormal_normalForm`, `IsNormal.normalForm_eq` — what a normal form is, that what a
  name becomes is one, and that nothing becomes of it any more;
* `Respelling`, `SameName` — one change of the spelling, and any number of them, in both directions;
* `Respelling.normalForm_eq` — a change of the spelling leaves the normal form alone;
* `sameName_normalForm` — every name can be changed into its normal form;
* `normalizeName_canonical` — normal forms are what they should be, and two names have the same one
  exactly if they are spellings of the same name.
-/

/-! ### Separators -/

theorem isSeparator_iff {c : Char} : isSeparator c = true ↔ c = '-' ∨ c = '_' ∨ c = '.' := by
  simp [isSeparator, or_assoc]

/-- Separators come before the small letters. -/
theorem lt_of_isSeparator {c : Char} (h : isSeparator c = true) : c.toNat < 0x61 := by
  rcases isSeparator_iff.mp h with rfl | rfl | rfl <;> decide

theorem isBlank_of_isSeparator {c : Char} (h : isSeparator c = true) : Text.isBlank c = false := by
  rcases isSeparator_iff.mp h with rfl | rfl | rfl <;> decide

/-- Lower case makes no separator of anything else. -/
theorem eq_of_isSeparator {c d : Char} (h : d ∈ Text.lowercase c) (hd : isSeparator d = true) :
    d = c := by
  have hlt := lt_of_isSeparator hd
  rcases Text.le_of_mem_lowercase h with heq | hle
  · exact heq
  · omega

theorem isSeparator_of_mem_lowercase {c d : Char} (h : d ∈ Text.lowercase c)
    (hc : isSeparator c = false) : isSeparator d = false := by
  rw [Bool.eq_false_iff]
  intro hd
  rw [eq_of_isSeparator h hd, hc] at hd
  cases hd

theorem lowercase_of_isSeparator {c : Char} (h : isSeparator c = true) :
    Text.lowercase c = [c] := by
  rcases isSeparator_iff.mp h with rfl | rfl | rfl <;> decide

/-! ### Parts of a name -/

@[simp] theorem collapse_nil (afterDash : Bool) : collapse afterDash [] = [] := rfl

theorem collapse_separator {c : Char} (h : isSeparator c = true) (afterDash : Bool)
    (rest : List Char) :
    collapse afterDash (c :: rest) = (if afterDash then [] else ['-']) ++ collapse true rest := by
  cases afterDash <;> simp [collapse, h]

theorem collapse_letter {c : Char} (h : isSeparator c = false) (afterDash : Bool)
    (rest : List Char) :
    collapse afterDash (c :: rest) = Text.lowercase c ++ collapse false rest := by
  simp [collapse, h]

/-- A run of separators is one dash, unless there is a dash before it. -/
theorem collapse_separators {run : List Char} (hne : run ≠ [])
    (h : ∀ c ∈ run, isSeparator c = true) (afterDash : Bool) (rest : List Char) :
    collapse afterDash (run ++ rest) = (if afterDash then [] else ['-']) ++ collapse true rest := by
  induction run generalizing afterDash with
  | nil => exact absurd rfl hne
  | cons c others ih =>
    obtain ⟨hc, hothers⟩ := List.forall_mem_cons.mp h
    rw [List.cons_append, collapse_separator hc]
    by_cases hmore : others = []
    · rw [hmore, List.nil_append]
    · rw [ih hmore hothers true, if_pos rfl, List.nil_append]

/-- Letters in lower case stay as they are. -/
theorem collapse_letters {letters : List Char} (hne : letters ≠ [])
    (h : ∀ c ∈ letters, isSeparator c = false ∧ Text.lowercase c = [c]) (afterDash : Bool)
    (rest : List Char) :
    collapse afterDash (letters ++ rest) = letters ++ collapse false rest := by
  induction letters generalizing afterDash with
  | nil => exact absurd rfl hne
  | cons c others ih =>
    obtain ⟨⟨hc, hlower⟩, hothers⟩ := List.forall_mem_cons.mp h
    rw [List.cons_append, collapse_letter hc, hlower, List.singleton_append, List.cons_append]
    by_cases hmore : others = []
    · rw [hmore, List.nil_append, List.nil_append]
    · rw [ih hmore hothers false]

/-- What comes before a part of a name is the same, whatever the part. -/
theorem collapse_congr {part other : List Char}
    (h : ∀ afterDash, collapse afterDash part = collapse afterDash other) (front : List Char)
    (afterDash : Bool) :
    collapse afterDash (front ++ part) = collapse afterDash (front ++ other) := by
  induction front generalizing afterDash with
  | nil => exact h afterDash
  | cons c rest ih => rw [List.cons_append, List.cons_append, collapse, collapse, ih, ih]

/-! ### Normal forms -/

/-- The characters are a name in normal form. -/
structure IsNormal (cs : List Char) : Prop where
  /-- Dashes are the only separators. -/
  dash : ∀ c ∈ cs, isSeparator c = true → c = '-'
  /-- No dash stands next to another. -/
  single : cs.IsChain fun c d => ¬(c = '-' ∧ d = '-')
  lower : ∀ c ∈ cs, Text.lowercase c = [c]
  trimmed : Text.trimChars cs = cs

/-- What is in normal form is collapsed to itself. -/
theorem collapse_eq_self {cs : List Char} {afterDash : Bool}
    (dash : ∀ c ∈ cs, isSeparator c = true → c = '-')
    (single : cs.IsChain fun c d => ¬(c = '-' ∧ d = '-'))
    (lower : ∀ c ∈ cs, Text.lowercase c = [c])
    (hfirst : afterDash = true → cs.head? ≠ some '-') : collapse afterDash cs = cs := by
  induction cs generalizing afterDash with
  | nil => rfl
  | cons c rest ih =>
    obtain ⟨hnext, hchain⟩ := List.isChain_cons.mp single
    have hrest : ∀ after, (after = true → rest.head? ≠ some '-') → collapse after rest = rest :=
      fun _ => ih (fun d hd => dash d (List.mem_cons_of_mem _ hd)) hchain
        fun d hd => lower d (List.mem_cons_of_mem _ hd)
    by_cases hc : isSeparator c = true
    · obtain rfl := dash c List.mem_cons_self hc
      have hafter : afterDash = false := by
        rw [Bool.eq_false_iff]
        intro hafter
        exact hfirst hafter rfl
      rw [collapse_separator hc, hafter, hrest true fun _ hhead => hnext _ hhead ⟨rfl, rfl⟩]
      rfl
    · rw [collapse_letter (Bool.eq_false_iff.mpr hc), lower c List.mem_cons_self,
        hrest false (by simp)]
      rfl

/-- What a name is collapsed to comes from its letters, or is a dash. -/
theorem mem_collapse {afterDash : Bool} {cs : List Char} {d : Char} (h : d ∈ collapse afterDash cs) :
    d = '-' ∨ ∃ c ∈ cs, isSeparator c = false ∧ d ∈ Text.lowercase c := by
  induction cs generalizing afterDash with
  | nil => cases h
  | cons c rest ih =>
    -- What comes from the rest of the name comes from the name.
    have hmore : ∀ {after}, d ∈ collapse after rest →
        d = '-' ∨ ∃ c' ∈ c :: rest, isSeparator c' = false ∧ d ∈ Text.lowercase c' := by
      intro after hd
      rcases ih hd with hdash | ⟨c', hc', hletter⟩
      · exact .inl hdash
      · exact .inr ⟨c', List.mem_cons_of_mem _ hc', hletter⟩
    cases hc : isSeparator c with
    | true =>
      rw [collapse_separator hc] at h
      rcases List.mem_append.mp h with hd | hd
      · cases afterDash with
        | true => cases hd
        | false => exact .inl (List.mem_singleton.mp hd)
      · exact hmore hd
    | false =>
      rw [collapse_letter hc] at h
      rcases List.mem_append.mp h with hd | hd
      · exact .inr ⟨c, List.mem_cons_self, hc, hd⟩
      · exact hmore hd

/-- No dash stands next to another, nor at the beginning if there is one before it. -/
theorem isChain_collapse (afterDash : Bool) (cs : List Char) :
    (collapse afterDash cs).IsChain (fun c d => ¬(c = '-' ∧ d = '-')) ∧
      (afterDash = true → (collapse afterDash cs).head? ≠ some '-') := by
  induction cs generalizing afterDash with
  | nil => simp
  | cons c rest ih =>
    cases hc : isSeparator c with
    | true =>
      rw [collapse_separator hc]
      obtain ⟨hchain, hfirst⟩ := ih true
      cases afterDash with
      | true => exact ⟨hchain, hfirst⟩
      | false =>
        refine ⟨List.isChain_cons.mpr ⟨fun d hd hboth => ?_, hchain⟩, by simp⟩
        exact hfirst rfl (hboth.2 ▸ hd)
    | false =>
      rw [collapse_letter hc]
      -- None of the letters is a dash.
      have hletter : ∀ d ∈ Text.lowercase c, d ≠ '-' := by
        rintro d hd rfl
        have hdash := isSeparator_of_mem_lowercase hd hc
        cases hdash
      obtain ⟨hchain, -⟩ := ih false
      constructor
      · refine List.isChain_append.mpr ⟨?_, hchain, ?_⟩
        · refine List.Pairwise.isChain (List.pairwise_of_forall_mem_list ?_)
          exact fun d hd _ _ hboth => hletter d hd hboth.1
        · exact fun d hd _ _ hboth => hletter d (List.mem_of_getLast? hd) hboth.1
      · intro _ hhead
        obtain ⟨d, others, hlower⟩ := List.exists_cons_of_ne_nil (Text.lowercase_ne_nil c)
        rw [hlower] at hhead hletter
        exact hletter d List.mem_cons_self (Option.some.inj hhead)

/-- Something is left of a name that has something in it. -/
theorem collapse_ne_nil {cs : List Char} (h : cs ≠ []) : collapse false cs ≠ [] := by
  obtain ⟨c, rest, rfl⟩ := List.exists_cons_of_ne_nil h
  cases hc : isSeparator c with
  | true => simp [collapse_separator hc]
  | false => simp [collapse_letter hc, Text.lowercase_ne_nil c]

/-- The first character is no blank if that of the name is none. -/
theorem isBlank_head_collapse {cs : List Char} (h : ∀ c ∈ cs.head?, Text.isBlank c = false) :
    ∀ d ∈ (collapse false cs).head?, Text.isBlank d = false := by
  intro d hd
  cases cs with
  | nil => cases hd
  | cons c rest =>
    have hblank : Text.isBlank c = false := h c rfl
    cases hc : isSeparator c with
    | true =>
      rw [collapse_separator hc] at hd
      obtain rfl := Option.some.inj hd
      decide
    | false =>
      rw [collapse_letter hc, List.head?_append_of_ne_nil _ (Text.lowercase_ne_nil c)] at hd
      exact Text.isBlank_of_mem_lowercase (List.mem_of_head? hd) hblank

/-- The last character is no blank if that of the name is none. -/
theorem isBlank_last_collapse {afterDash : Bool} {cs : List Char}
    (h : ∀ c ∈ cs.getLast?, Text.isBlank c = false) :
    ∀ d ∈ (collapse afterDash cs).getLast?, Text.isBlank d = false := by
  induction cs generalizing afterDash with
  | nil => simp
  | cons c rest ih =>
    intro d hd
    have hrest : ∀ e ∈ rest.getLast?, Text.isBlank e = false := by
      intro e he
      apply h e
      rw [List.getLast?_cons, Option.mem_def.mp he]
      rfl
    cases hc : isSeparator c with
    | true =>
      rw [collapse_separator hc, List.getLast?_append] at hd
      rcases Option.or_eq_some_iff.mp hd with hd | ⟨-, hd⟩
      · exact ih hrest d hd
      · cases afterDash with
        | true => cases hd
        | false =>
          obtain rfl := Option.some.inj hd
          decide
    | false =>
      rw [collapse_letter hc, List.getLast?_append] at hd
      rcases Option.or_eq_some_iff.mp hd with hd | ⟨hnone, hd⟩
      · exact ih hrest d hd
      · -- Nothing comes behind the letter, so it is the last character of the name.
        have hnil : rest = [] := by
          by_contra hne
          exact collapse_ne_nil hne (List.getLast?_eq_none_iff.mp hnone)
        have hblank : Text.isBlank c = false := h c (by simp [hnil])
        exact Text.isBlank_of_mem_lowercase (List.mem_of_getLast? hd) hblank

/-- The normal form of the characters of a name. -/
def normalForm (cs : List Char) : List Char :=
  collapse false (Text.trimChars cs)

theorem toList_normalizeName (s : String) :
    (normalizeName s).toList = normalForm s.toList := by
  rw [normalizeName, String.toList_ofList, normalForm]

/-- **What a name becomes** is in normal form. -/
theorem isNormal_normalForm (cs : List Char) : IsNormal (normalForm cs) where
  dash d hd hsep := by
    rcases mem_collapse hd with hdash | ⟨c, -, hc, hletter⟩
    · exact hdash
    · rw [isSeparator_of_mem_lowercase hletter hc] at hsep
      cases hsep
  single := (isChain_collapse false _).1
  lower d hd := by
    rcases mem_collapse hd with rfl | ⟨c, -, -, hletter⟩
    · decide
    · exact Text.lowercase_of_mem hletter
  trimmed := by
    refine Text.trimChars_eq_self (isBlank_head_collapse ?_) (isBlank_last_collapse ?_)
    · exact fun c hc => Text.isBlank_head_trimChars hc
    · exact fun c hc => Text.isBlank_last_trimChars hc

/-- **What is in normal form** stays as it is. -/
theorem IsNormal.normalForm_eq {cs : List Char} (h : IsNormal cs) : normalForm cs = cs := by
  rw [normalForm, h.trimmed]
  exact collapse_eq_self h.dash h.single h.lower (by simp)

/-! ### Spellings -/

/-- One change of the spelling of a name. -/
inductive Respelling : List Char → List Char → Prop
  /-- A blank in front is left out. -/
  | blankBefore {c : Char} (cs : List Char) (h : Text.isBlank c = true) : Respelling (c :: cs) cs
  /-- A blank at the end is left out. -/
  | blankBehind {c : Char} (cs : List Char) (h : Text.isBlank c = true) : Respelling (cs ++ [c]) cs
  /-- A letter stands for another that has the same ASCII small letter. -/
  | letterCase {c d : Char} (front back : List Char) (h : c.toLower = d.toLower) :
    Respelling (front ++ ([c] ++ back)) (front ++ ([d] ++ back))
  /-- A character is put in lower case, which may make more than one of it. -/
  | lowerCase (c : Char) (front back : List Char) :
    Respelling (front ++ ([c] ++ back)) (front ++ (Text.lowercase c ++ back))
  /-- Separators, one or more, stand for others. -/
  | separators {run other : List Char} (front back : List Char) (hrun : run ≠ [])
    (hother : other ≠ []) (h : ∀ c ∈ run, isSeparator c = true)
    (h' : ∀ c ∈ other, isSeparator c = true) :
    Respelling (front ++ (run ++ back)) (front ++ (other ++ back))

/-- The two are spellings of one name: changes, made or taken back, lead from the one to the
    other. -/
def SameName (cs ds : List Char) : Prop :=
  Relation.EqvGen Respelling cs ds

/-- Parts of a name that are not blank can be replaced by others that come to the same. -/
theorem normalForm_replace {part other : List Char} (hne : part ≠ []) (hne' : other ≠ [])
    (hblank : ∀ c ∈ part, Text.isBlank c = false) (hblank' : ∀ c ∈ other, Text.isBlank c = false)
    (h : ∀ afterDash rest, collapse afterDash (part ++ rest) = collapse afterDash (other ++ rest))
    (front back : List Char) :
    normalForm (front ++ (part ++ back)) = normalForm (front ++ (other ++ back)) := by
  rw [normalForm, normalForm, Text.trimChars_around hne hblank, Text.trimChars_around hne' hblank']
  exact collapse_congr (fun afterDash => h afterDash _) _ _

/-- A character that is no letter has the lower case of no other. -/
theorem eq_of_lowercase_eq {c d : Char} (h : Text.lowercase c = Text.lowercase d)
    (hc : Text.isBlank c = true ∨ isSeparator c = true) : c = d := by
  rcases hc with hc | hc
  · have hself := Text.lowercase_of_isBlank hc
    have hmem : c ∈ Text.lowercase d := h ▸ hself ▸ List.mem_singleton_self c
    have hd : Text.isBlank d = true := by
      by_contra hd
      rw [Text.isBlank_of_mem_lowercase hmem (Bool.eq_false_iff.mpr hd)] at hc
      cases hc
    rw [Text.lowercase_of_isBlank hd] at hmem
    exact List.mem_singleton.mp hmem
  · have hself := lowercase_of_isSeparator hc
    exact eq_of_isSeparator (h ▸ hself ▸ List.mem_singleton_self c) hc

/-- Characters with the same lower case come to the same. -/
theorem normalForm_lowercase_eq {c d : Char} (h : Text.lowercase c = Text.lowercase d)
    (front back : List Char) :
    normalForm (front ++ ([c] ++ back)) = normalForm (front ++ ([d] ++ back)) := by
  by_cases hcd : c = d
  · rw [hcd]
  -- Neither is a blank or a separator, as these have a lower case of their own.
  have hletter : ∀ {e f : Char}, Text.lowercase e = Text.lowercase f → e ≠ f →
      Text.isBlank e = false ∧ isSeparator e = false := by
    intro e f hef hne
    rw [Bool.eq_false_iff, Bool.eq_false_iff]
    exact ⟨fun hblank => hne (eq_of_lowercase_eq hef (.inl hblank)),
      fun hsep => hne (eq_of_lowercase_eq hef (.inr hsep))⟩
  obtain ⟨hblank, hc⟩ := hletter h hcd
  obtain ⟨hblank', hd⟩ := hletter h.symm (Ne.symm hcd)
  refine normalForm_replace (by simp) (by simp) (by simpa using hblank) (by simpa using hblank') ?_
    front back
  intro afterDash rest
  rw [List.singleton_append, List.singleton_append, collapse_letter hc, collapse_letter hd, h]

/-- A character and its lower case come to the same. -/
theorem normalForm_lowercase (c : Char) (front back : List Char) :
    normalForm (front ++ ([c] ++ back)) = normalForm (front ++ (Text.lowercase c ++ back)) := by
  by_cases hself : Text.lowercase c = [c]
  · rw [hself]
  have hblank : Text.isBlank c = false :=
    Bool.eq_false_iff.mpr fun h => hself (Text.lowercase_of_isBlank h)
  have hc : isSeparator c = false :=
    Bool.eq_false_iff.mpr fun h => hself (lowercase_of_isSeparator h)
  refine normalForm_replace (by simp) (Text.lowercase_ne_nil c) (by simpa using hblank)
    (fun d hd => Text.isBlank_of_mem_lowercase hd hblank) ?_ front back
  intro afterDash rest
  rw [List.singleton_append, collapse_letter hc, collapse_letters (Text.lowercase_ne_nil c)]
  exact fun d hd => ⟨isSeparator_of_mem_lowercase hd hc, Text.lowercase_of_mem hd⟩

/-- **A change of the spelling** leaves the normal form alone. -/
theorem Respelling.normalForm_eq {cs ds : List Char} (h : Respelling cs ds) :
    normalForm cs = normalForm ds := by
  cases h with
  | blankBefore cs h => rw [normalForm, normalForm, Text.trimChars_cons h]
  | blankBehind cs h =>
    rw [normalForm, normalForm, Text.trimChars_append (by simpa using h)]
  | letterCase front back h =>
    exact normalForm_lowercase_eq (Text.lowercase_of_toLower_eq h) front back
  | lowerCase c front back => exact normalForm_lowercase c front back
  | separators front back hrun hother h h' =>
    refine normalForm_replace hrun hother (fun c hc => isBlank_of_isSeparator (h c hc))
      (fun c hc => isBlank_of_isSeparator (h' c hc)) ?_ front back
    intro afterDash rest
    rw [collapse_separators hrun h, collapse_separators hother h']

theorem SameName.normalForm_eq {cs ds : List Char} (h : SameName cs ds) :
    normalForm cs = normalForm ds := by
  induction h with
  | rel _ _ h => exact h.normalForm_eq
  | refl _ => rfl
  | symm _ _ _ ih => exact ih.symm
  | trans _ _ _ _ _ ih ih' => exact ih.trans ih'

/-! ### The way to the normal form -/

/-- Blanks at the end of a name can be left out one by one. -/
theorem sameName_behind (front : List Char) {blanks : List Char}
    (h : ∀ c ∈ blanks, Text.isBlank c = true) : SameName (front ++ blanks) front := by
  induction blanks using List.reverseRecOn with
  | nil =>
    rw [List.append_nil]
    exact .refl _
  | append_singleton others c ih =>
    rw [← List.append_assoc]
    refine .trans _ _ _ (.rel _ _ (.blankBehind _ (h c (by simp)))) (ih fun d hd => h d ?_)
    exact List.mem_append_left _ hd

/-- Blanks in front of a name can be left out one by one. -/
theorem sameName_dropWhile (cs : List Char) : SameName cs (cs.dropWhile Text.isBlank) := by
  induction cs with
  | nil => exact .refl _
  | cons c rest ih =>
    cases hc : Text.isBlank c with
    | true =>
      rw [List.dropWhile_cons_of_pos hc]
      exact .trans _ _ _ (.rel _ _ (.blankBefore rest hc)) ih
    | false =>
      rw [List.dropWhile_cons_of_neg (by simp [hc])]
      exact .refl _

/-- Blanks around a name can be left out. -/
theorem sameName_trimChars (cs : List Char) : SameName cs (Text.trimChars cs) := by
  obtain ⟨blanks, hdrop, hblanks⟩ := Text.exists_trimEnd_append (cs.dropWhile Text.isBlank)
  have hend := sameName_behind (Text.trimEnd (cs.dropWhile Text.isBlank)) hblanks
  rw [← hdrop] at hend
  exact .trans _ _ _ (sameName_dropWhile cs) hend

/-- A name can be changed character by character, where each run of separators shrinks to the dash
    that its first one becomes. -/
theorem sameName_collapse (cs front : List Char) :
    SameName (front ++ cs) (front ++ collapse false cs) ∧
      SameName (front ++ '-' :: cs) (front ++ '-' :: collapse true cs) := by
  induction cs generalizing front with
  | nil => exact ⟨.refl _, .refl _⟩
  | cons c rest ih =>
    cases hc : isSeparator c with
    | true =>
      have hdash : ∀ d ∈ ['-'], isSeparator d = true := List.forall_mem_singleton.mpr rfl
      obtain ⟨-, hshrunk⟩ := ih front
      -- Behind no dash a separator becomes one, and behind a dash it is dropped.
      constructor
      · rw [collapse_separator hc]
        refine .trans _ _ _ (.rel _ _ ?_) hshrunk
        exact .separators front rest (List.cons_ne_nil c []) (List.cons_ne_nil '-' [])
          (by simpa using hc) hdash
      · rw [collapse_separator hc]
        refine .trans _ _ _ (.rel _ _ ?_) hshrunk
        exact .separators front rest (List.cons_ne_nil '-' [c]) (List.cons_ne_nil '-' [])
          (by simpa [hc] using hdash) hdash
    | false =>
      have hlower : ∀ before, SameName (before ++ c :: rest)
          (before ++ (Text.lowercase c ++ collapse false rest)) := by
        intro before
        have hrest := (ih (before ++ Text.lowercase c)).1
        rw [List.append_assoc, List.append_assoc] at hrest
        exact .trans _ _ _ (.rel _ _ (.lowerCase c before rest)) hrest
      rw [collapse_letter hc, collapse_letter hc]
      refine ⟨hlower front, ?_⟩
      have hbehind := hlower (front ++ ['-'])
      rwa [List.append_assoc, List.append_assoc] at hbehind

/-- **Every name** can be changed into its normal form. -/
theorem sameName_normalForm (cs : List Char) : SameName cs (normalForm cs) :=
  .trans _ _ _ (sameName_trimChars cs) (sameName_collapse (Text.trimChars cs) []).1

/-- **Normal forms are canonical.** Every name has a normal form, which has no separator but dashes,
    no two of them next to each other, no blanks around it, and is its own normal form.  Two names
    have the same one exactly if they can be changed into each other by changing the case of
    letters, the separators that a run of them consists of, and the blanks around the name. -/
theorem normalizeName_canonical :
    (∀ s, '_' ∉ (normalizeName s).toList ∧ '.' ∉ (normalizeName s).toList ∧
      (∀ front back, (normalizeName s).toList ≠ front ++ '-' :: '-' :: back) ∧
      Text.trim (normalizeName s) = normalizeName s ∧
      normalizeName (normalizeName s) = normalizeName s) ∧
    ∀ s t, normalizeName s = normalizeName t ↔ SameName s.toList t.toList := by
  constructor
  · intro s
    have hnormal := isNormal_normalForm s.toList
    rw [← toList_normalizeName] at hnormal
    refine ⟨fun hmem => ?_, fun hmem => ?_, fun front back heq => ?_, ?_, ?_⟩
    · have hdash := hnormal.dash '_' hmem (by decide)
      cases hdash
    · have hdash := hnormal.dash '.' hmem (by decide)
      cases hdash
    · exact List.isChain_iff_forall_rel_of_append_cons_cons.mp hnormal.single heq ⟨rfl, rfl⟩
    · rw [Text.trim, hnormal.trimmed, String.ofList_toList]
    · rw [← String.toList_inj, toList_normalizeName (normalizeName s), hnormal.normalForm_eq]
  · intro s t
    rw [← String.toList_inj, toList_normalizeName, toList_normalizeName]
    constructor
    · intro h
      have hback := Relation.EqvGen.symm _ _ (sameName_normalForm t.toList)
      rw [← h] at hback
      exact .trans _ _ _ (sameName_normalForm s.toList) hback
    · exact SameName.normalForm_eq

end DocRelay.Wheel
