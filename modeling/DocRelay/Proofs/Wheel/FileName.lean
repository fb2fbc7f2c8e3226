import DocRelay.Proofs.Text.Split
import DocRelay.Wheel.Draft
import Mathlib.Data.List.Basic

namespace DocRelay.Wheel

/-!
# File names of wheels and of drafts

A file name is cut at its dashes, so that a name, a version and a build number have none and a tag
has two.  A draft writes its name without dashes but its version and its tag as they are: dashes in
the version make the file that of another wheel, and a third dash in the tag makes its first part a
build number.

* `FileName.tag?` — the tag at the end of a file name, perhaps behind a build number;
* `FileName.parse?_eq_some_iff` — which file names are those of wheels;
* `normalizeName_escapedName` — writing underscores for dashes keeps a name the same;
* `Draft.fileName_grammar` — file names in general, and those of drafts.
-/

namespace FileName

/-! ### The grammar of file names -/

/-- The tag at the end of a file name, perhaps behind a build number. -/
def tag? (rest : String) : Option String :=
  match Text.split (· == '-') rest.toList with
  | [python, abi, platform]
  | [_, python, abi, platform] => some (String.ofList (Text.join ['-'] [python, abi, platform]))
  | _ => none

/-- A tag has two dashes; a build number and one dash may come before it. -/
theorem tag?_eq_some_iff {rest tag : String} :
    tag? rest = some tag ↔ tag.toList.count '-' = 2 ∧
      (rest = tag ∨ ∃ build : String, '-' ∉ build.toList ∧ rest = build ++ "-" ++ tag) := by
  constructor
  · intro h
    rw [tag?] at h
    split at h
    · rename_i python abi platform hsplit
      obtain ⟨-, hplain, hjoin⟩ := Text.split_eq_iff.mp hsplit
      obtain rfl := Option.some.inj h
      refine ⟨?_, .inl ?_⟩
      · rw [String.toList_ofList, Text.count_join hplain]
        rfl
      · rw [← hjoin, String.ofList_toList]
    · rename_i build python abi platform hsplit
      obtain ⟨-, hplain, hjoin⟩ := Text.split_eq_iff.mp hsplit
      obtain ⟨hbuild, htag⟩ := List.forall_mem_cons.mp hplain
      obtain rfl := Option.some.inj h
      refine ⟨?_, .inr ⟨String.ofList build, by rwa [String.toList_ofList], ?_⟩⟩
      · rw [String.toList_ofList, Text.count_join htag]
        rfl
      · apply String.toList_injective
        rw [hjoin, Text.join_cons_cons]
        simp
    · cases h
  · rintro ⟨hcount, hrest⟩
    have hlength : (Text.split (· == '-') tag.toList).length = 3 := by
      rw [Text.length_split, hcount]
    obtain ⟨python, abi, platform, hsplit⟩ := List.length_eq_three.mp hlength
    have hjoin : String.ofList (Text.join ['-'] [python, abi, platform]) = tag := by
      rw [← (Text.split_eq_iff.mp hsplit).2.2, String.ofList_toList]
    rcases hrest with rfl | ⟨build, hbuild, rfl⟩
    · rw [tag?, hsplit]
      exact congrArg some hjoin
    · have hcut : Text.split (· == '-') (build ++ "-" ++ tag).toList
          = [build.toList, python, abi, platform] := by
        have hplain : ∀ c ∈ build.toList, (c == '-') = false := fun c hc =>
          beq_eq_false_iff_ne.mpr fun he => hbuild (he ▸ hc)
        rw [← hsplit, ← Text.split_append hplain (beq_self_eq_true '-')]
        simp
      rw [tag?, hcut]
      exact congrArg some hjoin

/-- A build number brings one more dash. -/
theorem count_behind {build tag : String} (h : '-' ∉ build.toList) :
    (build ++ "-" ++ tag).toList.count '-' = tag.toList.count '-' + 1 := by
  rw [String.toList_append, String.toList_append, List.count_append, List.count_append,
    List.count_eq_zero_of_not_mem h]
  simp
  omega

/-- There is a tag where there are two or three dashes. -/
theorem exists_tag?_iff {rest : String} :
    (∃ tag, tag? rest = some tag) ↔ rest.toList.count '-' = 2 ∨ rest.toList.count '-' = 3 := by
  constructor
  · rintro ⟨tag, htag⟩
    obtain ⟨hcount, rfl | ⟨build, hplain, rfl⟩⟩ := tag?_eq_some_iff.mp htag
    · exact .inl hcount
    · exact .inr (by rw [count_behind hplain, hcount])
  · rintro (hcount | hcount)
    · exact ⟨rest, tag?_eq_some_iff.mpr ⟨hcount, .inl rfl⟩⟩
    · -- What comes before the first of three dashes is the build number.
      have hmem : '-' ∈ rest.toList := List.count_pos_iff.mp (by omega)
      obtain ⟨build, tag, hrest, hplain⟩ := List.eq_append_cons_of_mem hmem
      have hrest' : rest = String.ofList build ++ "-" ++ String.ofList tag := by
        apply String.toList_injective
        rw [hrest]
        simp
      have hbuild : '-' ∉ (String.ofList build).toList := by rwa [String.toList_ofList]
      refine ⟨String.ofList tag, tag?_eq_some_iff.mpr ⟨?_, .inr ⟨_, hbuild, hrest'⟩⟩⟩
      rw [hrest', count_behind hbuild] at hcount
      omega

/-- The tag is everything where there are two dashes. -/
theorem tag_eq_iff {rest tag : String} (h : tag? rest = some tag) :
    tag = rest ↔ rest.toList.count '-' = 2 := by
  obtain ⟨hcount, hrest⟩ := tag?_eq_some_iff.mp h
  constructor
  · rintro rfl
    exact hcount
  · intro htwo
    rcases hrest with rfl | ⟨build, hplain, rfl⟩
    · rfl
    · rw [count_behind hplain] at htwo
      omega

/-- The file name of a name, a version and whatever comes behind them. -/
theorem toList_render (f : FileName) :
    f.render.toList
      = (f.name.toList ++ '-' :: (f.version.toList ++ '-' :: f.tag.toList))
        ++ wheelEnding.toList := by
  simp [render]

/-- A name and a version without dashes are read back. -/
theorem parse?_render {name version : String} (hname : '-' ∉ name.toList)
    (hversion : '-' ∉ version.toList) (rest : String) :
    parse? (render ⟨name, version, rest⟩) = (tag? rest).map fun tag => ⟨name, version, tag⟩ := by
  have hplain : ∀ cs : List Char, '-' ∉ cs → ∀ c ∈ cs, (c == '-') = false := fun cs h c hc =>
    beq_eq_false_iff_ne.mpr fun he => h (he ▸ hc)
  have hstem : wheelEnding.toList.isSuffixOf? (render ⟨name, version, rest⟩).toList
      = some (name.toList ++ '-' :: (version.toList ++ '-' :: rest.toList)) :=
    List.isSuffixOf?_eq_some_iff_append_eq.mpr (toList_render ⟨name, version, rest⟩).symm
  have hsplit : Text.split (· == '-') (name.toList ++ '-' :: (version.toList ++ '-' :: rest.toList))
      = name.toList :: version.toList :: Text.split (· == '-') rest.toList := by
    rw [Text.split_append (hplain _ hname) (beq_self_eq_true _),
      Text.split_append (hplain _ hversion) (beq_self_eq_true _)]
  simp only [parse?, hstem, Option.bind_eq_bind, Option.bind_some, hsplit, tag?]
  -- Three or four pieces are left behind the version, or there is no tag.
  rcases Text.split (· == '-') rest.toList with
    _ | ⟨a, _ | ⟨b, _ | ⟨c, _ | ⟨d, _ | ⟨e, more⟩⟩⟩⟩⟩ <;>
    simp [String.ofList_toList]

/-- A wheel's file name begins with the name and the version. -/
theorem exists_of_parse? {file : String} {f : FileName} (h : parse? file = some f) :
    '-' ∉ f.name.toList ∧ '-' ∉ f.version.toList ∧
      ∃ rest, file = render ⟨f.name, f.version, rest⟩ := by
  obtain ⟨stem, hstem, h⟩ := Option.bind_eq_some_iff.mp h
  have hfile : stem ++ wheelEnding.toList = file.toList :=
    List.isSuffixOf?_eq_some_iff_append_eq.mp hstem
  -- Whatever the pieces behind the version are, joined they come behind the second dash.
  have hrest : ∀ name version next : List Char, ∀ others : List (List Char),
      Text.split (· == '-') stem = name :: version :: next :: others →
      '-' ∉ name ∧ '-' ∉ version ∧
        ∃ rest, file = render ⟨String.ofList name, String.ofList version, rest⟩ := by
    intro name version next others hsplit
    obtain ⟨-, hplain, hjoin⟩ := Text.split_eq_iff.mp hsplit
    refine ⟨hplain _ (by simp), hplain _ (by simp),
      String.ofList (Text.join ['-'] (next :: others)), String.toList_injective ?_⟩
    rw [toList_render, ← hfile, hjoin, Text.join_cons_cons, Text.join_cons_cons]
    simp only [String.toList_ofList]
  split at h
  · rename_i name version python abi platform hsplit
    obtain rfl := Option.some.inj h
    simpa using hrest name version python [abi, platform] hsplit
  · rename_i name version build python abi platform hsplit
    obtain rfl := Option.some.inj h
    simpa using hrest name version build [python, abi, platform] hsplit
  · cases h

/-- **The grammar of file names.** A file name is that of a wheel if it is made of a name and a
    version without dashes, perhaps a build number without dashes, and a tag with two. -/
theorem parse?_eq_some_iff {file : String} {f : FileName} :
    parse? file = some f ↔
      ('-' ∉ f.name.toList ∧ '-' ∉ f.version.toList ∧ f.tag.toList.count '-' = 2) ∧
      (file = f.name ++ "-" ++ f.version ++ "-" ++ f.tag ++ ".whl" ∨
        ∃ build : String, '-' ∉ build.toList ∧
          file = f.name ++ "-" ++ f.version ++ "-" ++ build ++ "-" ++ f.tag ++ ".whl") := by
  have hrender : ∀ rest : String,
      render ⟨f.name, f.version, rest⟩ = f.name ++ "-" ++ f.version ++ "-" ++ rest ++ ".whl" :=
    fun _ => rfl
  have hbuild : ∀ build : String, f.name ++ "-" ++ f.version ++ "-" ++ (build ++ "-" ++ f.tag)
      = f.name ++ "-" ++ f.version ++ "-" ++ build ++ "-" ++ f.tag := by
    intro build
    simp only [String.append_assoc]
  constructor
  · intro h
    obtain ⟨hname, hversion, rest, rfl⟩ := exists_of_parse? h
    rw [parse?_render hname hversion, Option.map_eq_some_iff] at h
    obtain ⟨tag, htag, hf⟩ := h
    obtain rfl : tag = f.tag := congrArg FileName.tag hf
    -- What follows the version is the tag, or a build number and the tag.
    obtain ⟨hcount, rfl | ⟨build, hplain, rfl⟩⟩ := tag?_eq_some_iff.mp htag
    · exact ⟨⟨hname, hversion, hcount⟩, .inl (hrender _)⟩
    · refine ⟨⟨hname, hversion, hcount⟩, .inr ⟨build, hplain, ?_⟩⟩
      rw [hrender, hbuild]
  · rintro ⟨⟨hname, hversion, hcount⟩, hfile⟩
    have hparse : ∀ rest, tag? rest = some f.tag →
        parse? (render ⟨f.name, f.version, rest⟩) = some f := by
      intro rest hrest
      rw [parse?_render hname hversion, hrest]
      rfl
    rcases hfile with rfl | ⟨build, hplain, rfl⟩
    · rw [← hrender]
      exact hparse f.tag (tag?_eq_some_iff.mpr ⟨hcount, .inl rfl⟩)
    · rw [← hbuild, ← hrender]
      exact hparse _ (tag?_eq_some_iff.mpr ⟨hcount, .inr ⟨build, hplain, rfl⟩⟩)

end FileName

/-! ### Names with underscores for dashes -/

/-- An underscore for a dash. -/
def underscore (c : Char) : Char :=
  if c == '-' then '_' else c

theorem isBlank_underscore (c : Char) : Text.isBlank (underscore c) = Text.isBlank c := by
  rw [underscore]
  split
  · rename_i h
    obtain rfl := beq_iff_eq.mp h
    decide
  · rfl

/-- Only separators are changed, and they stay separators. -/
theorem underscore_cases (c : Char) :
    isSeparator c = true ∧ isSeparator (underscore c) = true ∨
      isSeparator c = false ∧ underscore c = c := by
  rw [underscore]
  by_cases h : c = '-'
  · subst h
    exact .inl (by decide)
  · rw [if_neg (by simpa using h)]
    cases hc : isSeparator c
    · exact .inr ⟨rfl, rfl⟩
    · exact .inl ⟨rfl, rfl⟩

theorem trimEnd_map_underscore (cs : List Char) :
    Text.trimEnd (cs.map underscore) = (Text.trimEnd cs).map underscore := by
  induction cs with
  | nil => rfl
  | cons c rest ih =>
    rw [List.map_cons, Text.trimEnd, Text.trimEnd, ih, isBlank_underscore]
    cases Text.trimEnd rest with
    | nil =>
      rw [List.map_nil]
      by_cases hc : Text.isBlank c = true
      · simp [hc]
      · simp [hc]
    | cons d others => rfl

theorem trimChars_map_underscore (cs : List Char) :
    Text.trimChars (cs.map underscore) = (Text.trimChars cs).map underscore := by
  have hblank : Text.isBlank ∘ underscore = Text.isBlank := funext isBlank_underscore
  rw [Text.trimChars, Text.trimChars, List.dropWhile_map, hblank, trimEnd_map_underscore]

theorem collapse_map_underscore (afterDash : Bool) (cs : List Char) :
    collapse afterDash (cs.map underscore) = collapse afterDash cs := by
  induction cs generalizing afterDash with
  | nil => rfl
  | cons c rest ih =>
    rw [List.map_cons, collapse, collapse, ih, ih]
    rcases underscore_cases c with ⟨hc, hu⟩ | ⟨hc, hu⟩
    · rw [hc, hu, if_pos rfl, if_pos rfl]
    · rw [hu]

namespace Draft

/-- **Writing underscores for dashes keeps a name the same.** -/
theorem normalizeName_escapedName (d : Draft) :
    normalizeName d.escapedName = normalizeName d.name := by
  have hescaped : d.escapedName = String.ofList (d.name.toList.map underscore) := rfl
  rw [normalizeName, normalizeName, hescaped, String.toList_ofList, trimChars_map_underscore,
    collapse_map_underscore]

theorem notMem_escapedName (d : Draft) : '-' ∉ d.escapedName.toList := by
  rw [escapedName, String.toList_ofList, List.mem_map]
  rintro ⟨c, -, hc⟩
  split at hc
  · cases hc
  · rename_i hne
    exact hne (beq_iff_eq.mpr hc)

/-- The file name of a draft whose version has no dashes. -/
theorem parse?_fileName {d : Draft} (h : '-' ∉ d.version.toList) :
    FileName.parse? d.fileName
      = (FileName.tag? d.tagText).map fun tag => ⟨d.escapedName, d.version, tag⟩ :=
  FileName.parse?_render d.notMem_escapedName h _

/-- A draft's file that is read as that of the draft has its name and version. -/
theorem exists_of_matches {d : Draft} {f : FileName} (h : FileName.parse? d.fileName = some f)
    (hmatches : f.matches d.name (some d.version) = true) :
    '-' ∉ d.version.toList ∧
      ∃ tag, FileName.tag? d.tagText = some tag ∧ f = ⟨d.escapedName, d.version, tag⟩ := by
  rw [FileName.matches, Bool.and_eq_true] at hmatches
  have hversion : d.version = f.version := by simpa using hmatches.2
  have hplain : '-' ∉ d.version.toList := hversion ▸ (FileName.exists_of_parse? h).2.1
  rw [parse?_fileName hplain, Option.map_eq_some_iff] at h
  obtain ⟨tag, htag, rfl⟩ := h
  exact ⟨hplain, tag, htag, rfl⟩

/-- A name that is normalized to the same matches a draft's file. -/
theorem matches_escapedName (d : Draft) (tag : String) {name : String}
    (h : normalizeName name = normalizeName d.name) {version : Option String}
    (hversion : version.all (· == d.version) = true) :
    FileName.matches ⟨d.escapedName, d.version, tag⟩ name version = true := by
  rw [FileName.matches, Bool.and_eq_true, beq_iff_eq, normalizeName_escapedName]
  exact ⟨h.symm, hversion⟩

/-- **File names.** The file names of wheels are those of the grammar.  The file name of a draft is
    read as that of a wheel of its name and version exactly if the version has no dashes and the
    tag has two or three.  Then the wheel is one of every spelling of the name, and it has the tag
    of the draft exactly if that has two dashes. -/
theorem fileName_grammar :
    (∀ (file : String) (f : FileName), FileName.parse? file = some f ↔
      ('-' ∉ f.name.toList ∧ '-' ∉ f.version.toList ∧ f.tag.toList.count '-' = 2) ∧
      (file = f.name ++ "-" ++ f.version ++ "-" ++ f.tag ++ ".whl" ∨
        ∃ build : String, '-' ∉ build.toList ∧
          file = f.name ++ "-" ++ f.version ++ "-" ++ build ++ "-" ++ f.tag ++ ".whl")) ∧
    ∀ d : Draft,
      ((∃ f, FileName.parse? d.fileName = some f ∧ f.matches d.name (some d.version) = true) ↔
        '-' ∉ d.version.toList ∧
          (d.tagText.toList.count '-' = 2 ∨ d.tagText.toList.count '-' = 3)) ∧
      ∀ f, FileName.parse? d.fileName = some f → f.matches d.name (some d.version) = true →
        (∀ name, normalizeName name = normalizeName d.name →
          f.matches name (some d.version) = true ∧ f.matches name none = true) ∧
        (f.tag = d.tagText ↔ d.tagText.toList.count '-' = 2) := by
  refine ⟨fun file f => FileName.parse?_eq_some_iff, fun d => ⟨⟨?_, ?_⟩, ?_⟩⟩
  · rintro ⟨f, hparse, hmatches⟩
    obtain ⟨hplain, tag, htag, -⟩ := exists_of_matches hparse hmatches
    exact ⟨hplain, FileName.exists_tag?_iff.mp ⟨tag, htag⟩⟩
  · rintro ⟨hplain, hcount⟩
    obtain ⟨tag, htag⟩ := FileName.exists_tag?_iff.mpr hcount
    refine ⟨⟨d.escapedName, d.version, tag⟩, ?_, matches_escapedName d tag rfl (by simp)⟩
    rw [parse?_fileName hplain, htag]
    rfl
  · intro f hparse hmatches
    obtain ⟨-, tag, htag, rfl⟩ := exists_of_matches hparse hmatches
    refine ⟨fun name hname => ⟨?_, ?_⟩, FileName.tag_eq_iff htag⟩
    · exact matches_escapedName d tag hname (by simp)
    · exact matches_escapedName d tag hname rfl

/-- A build number in the tag of a draft. -/
theorem fileName_grammar_build :
    let d : Draft := ⟨"Pkg.a-b", "1.0", some "7-py3-none-any", []⟩
    d.fileName = "Pkg.a_b-1.0-7-py3-none-any.whl" ∧
    ∃ f, FileName.parse? d.fileName = some f ∧ f.matches "pkg_A.B" (some "1.0") = true ∧
      f.tag ≠ d.tagText := by
  intro d
  obtain ⟨f, hparse, hmatches⟩ := ((fileName_grammar.2 d).1).mpr (by decide)
  obtain ⟨hnames, htag⟩ := (fileName_grammar.2 d).2 f hparse hmatches
  exact ⟨by decide, f, hparse, (hnames "pkg_A.B" (by decide)).1,
    fun he => absurd (htag.mp he) (by decide)⟩

end Draft

end DocRelay.Wheel
