import DocRelay.Proofs.Text.Split
import DocRelay.Proofs.Wheel.Building

namespace DocRelay.Wheel

/-!
# What built wheels call themselves

A draft writes its name and its version into the lines of the description and into the name of the
folder around it, just as they are.  The wheel that is read back has them, without the blanks around
them, if no line is broken, the folder is one folder and no file of the draft is a description too.

* `headers_line`, `headers_blank` — the headers of a description, line by line;
* `Draft.headers_description`, `Draft.identity_description` — the name and the version in the
  description of a draft;
* `Draft.descriptions_entries` — the only description of a draft;
* `Draft.built_identity` — the name and the version of a built wheel;
* `Draft.built_misread` — drafts whose wheels are read as others, or not at all.
-/

open Archive (Entry WithinLimits)

/-! ### Headers -/

/-- The header of a line ends at the last character that is not blank. -/
theorem header?_append {line : List Char} {c : Char} (hcolon : c ≠ ':')
    (hblank : Text.isBlank c = true) : header? (line ++ [c]) = header? line := by
  have hfirst : ∀ cs : List Char, Text.splitFirst [':'] (cs ++ [c])
      = (Text.splitFirst [':'] cs).map fun parts => (parts.1, parts.2 ++ [c]) := by
    intro cs
    by_cases hmem : ':' ∈ cs
    · obtain ⟨key, value, rfl, hkey⟩ := List.eq_append_cons_of_mem hmem
      rw [List.append_assoc, List.cons_append, Text.splitFirst_append hkey,
        Text.splitFirst_append hkey]
      rfl
    · have hboth : ':' ∉ cs ++ [c] := by
        rw [List.mem_append, List.mem_singleton]
        rintro (h | h)
        · exact hmem h
        · exact hcolon h.symm
      rw [Text.splitFirst_of_notMem hmem, Text.splitFirst_of_notMem hboth]
      rfl
  rw [header?, header?, hfirst, Option.map_map]
  congr 1
  funext parts
  have htrim : Text.trimChars (parts.2 ++ [c]) = Text.trimChars parts.2 :=
    Text.trimChars_append fun d hd => List.mem_singleton.mp hd ▸ hblank
  simp only [Function.comp_apply, htrim]

/-- A carriage return at the end of a line makes no difference. -/
theorem header?_dropCarriage (line : List Char) :
    header? (Text.dropCarriage '\r' line) = header? line ∧
      (Text.dropCarriage '\r' line).all Text.isBlank = line.all Text.isBlank := by
  rw [Text.dropCarriage]
  split
  · rename_i h
    obtain ⟨front, rfl⟩ := List.getLast?_eq_some_iff.mp h
    rw [List.dropLast_concat, header?_append (by decide) (by decide)]
    simp [show Text.isBlank '\r' = true by decide]
  · exact ⟨rfl, rfl⟩

/-- The header of a key and a value. -/
theorem header?_colon {key : List Char} (h : ':' ∉ key) (value : List Char) :
    header? (key ++ ':' :: value)
      = some (String.ofList (Text.trimChars key), String.ofList (Text.trimChars value)) := by
  rw [header?, Text.splitFirst_append h]
  rfl

/-- **A line with something in it** gives its header, and the others follow. -/
theorem headers_line {line : List Char} (hline : '\n' ∉ line)
    (hblank : line.all Text.isBlank = false) (rest : List Char) :
    headers (String.ofList (line ++ '\n' :: rest))
      = (header? line).toList ++ headers (String.ofList rest) := by
  obtain ⟨hheader, hsame⟩ := header?_dropCarriage line
  rw [headers, headers, String.toList_ofList, String.toList_ofList, Text.lines,
    Text.linesOn_append hline, List.takeWhile_cons_of_pos (by rw [hsame, hblank]; rfl),
    List.filterMap_cons, hheader]
  cases header? line <;> rfl

/-- **A blank line** ends the headers. -/
theorem headers_blank {blanks : List Char} (h : ∀ c ∈ blanks, Text.isBlank c = true)
    (hmem : '\n' ∈ blanks) : headers (String.ofList blanks) = [] := by
  obtain ⟨line, rest, rfl, hline⟩ := List.eq_append_cons_of_mem hmem
  have hblank : line.all Text.isBlank = true :=
    List.all_eq_true.mpr fun c hc => h c (List.mem_append_left _ hc)
  rw [headers, String.toList_ofList, Text.lines, Text.linesOn_append hline,
    List.takeWhile_cons_of_neg (by rw [(header?_dropCarriage line).2, hblank]; decide)]
  rfl

namespace Draft

/-! ### The description of a draft -/

/-- The lines of a description can hold the name and the version: no line is broken, except by
    blanks behind the version. -/
def isUnbroken (d : Draft) : Bool :=
  !d.name.toList.contains '\n' && !(Text.trimEnd d.version.toList).contains '\n'

/-- The folder of the description is one folder. -/
def isPlain (d : Draft) : Bool :=
  !d.name.toList.contains '/' && !d.version.toList.contains '/'

/-- The characters of a description, line by line. -/
theorem toList_description (d : Draft) :
    d.description.toList = "Metadata-Version: 2.1".toList ++ '\n' ::
      ("Name".toList ++ ':' :: (' ' :: d.name.toList) ++ '\n' ::
        ("Version".toList ++ ':' :: ' ' :: (d.version.toList ++ ['\n', '\n']))) := by
  have hstart : "Metadata-Version: 2.1\nName: ".toList
      = "Metadata-Version: 2.1".toList ++ '\n' :: ("Name".toList ++ [':', ' ']) := by decide
  have hbetween : "\nVersion: ".toList = '\n' :: ("Version".toList ++ [':', ' ']) := by decide
  have hend : "\n\n".toList = ['\n', '\n'] := by decide
  unfold description
  -- The fixed texts are closed, and must not be evaluated again.
  generalize "Metadata-Version: 2.1\nName: " = start at *
  generalize "\nVersion: " = between at *
  generalize "\n\n" = last at *
  simp [String.toList_append, hstart, hbetween, hend]

/-- The headers of three lines, behind which everything is blank. -/
theorem headers_ofLines {name version rest : List Char} (hname : '\n' ∉ name)
    (hversion : '\n' ∉ version) (hrest : ∀ c ∈ rest, Text.isBlank c = true)
    (hbreak : '\n' ∈ rest) :
    headers (String.ofList ("Metadata-Version: 2.1".toList ++ '\n' ::
      ("Name".toList ++ ':' :: (' ' :: name) ++ '\n' ::
        ("Version".toList ++ ':' :: (' ' :: version) ++ '\n' :: rest))))
      = [("Metadata-Version", "2.1"), ("Name", String.ofList (Text.trimChars name)),
        ("Version", String.ofList (Text.trimChars version))] := by
  have hformat : header? "Metadata-Version: 2.1".toList = some ("Metadata-Version", "2.1") := by
    decide +kernel
  have hnameKey : String.ofList (Text.trimChars "Name".toList) = "Name" := by decide +kernel
  have hversionKey : String.ofList (Text.trimChars "Version".toList) = "Version" := by
    decide +kernel
  -- A line with a key is neither broken nor blank.
  have hwhole : ∀ {key value : List Char}, '\n' ∉ key → '\n' ∉ value →
      '\n' ∉ key ++ ':' :: (' ' :: value) := by
    intro key value hkey hvalue
    simp [hkey, hvalue]
  have hfull : ∀ key value : List Char,
      (key ++ ':' :: value).all Text.isBlank = false := by
    intro key value
    simp [show Text.isBlank ':' = false by decide]
  rw [headers_line (by decide) (by decide), hformat,
    headers_line (hwhole (by decide) hname) (hfull _ _),
    headers_line (hwhole (by decide) hversion) (hfull _ _), headers_blank hrest hbreak,
    header?_colon (by decide), header?_colon (by decide), Text.trimChars_cons (by decide),
    Text.trimChars_cons (by decide), hnameKey, hversionKey]
  rfl

/-- **The headers of a description**, of which the version may be followed by blank lines. -/
theorem headers_description {d : Draft} (h : d.isUnbroken = true) :
    headers d.description
      = [("Metadata-Version", "2.1"), ("Name", Text.trim d.name), ("Version", Text.trim d.version)]
    := by
  obtain ⟨hname, hversion⟩ : '\n' ∉ d.name.toList ∧ '\n' ∉ Text.trimEnd d.version.toList := by
    simpa [isUnbroken] using h
  -- The line of the version ends at the first newline, behind which everything is blank.
  obtain ⟨blanks, hblanks, hall⟩ := Text.exists_trimEnd_append d.version.toList
  obtain ⟨front, back, hcut, hfront⟩ :=
    List.eq_append_cons_of_mem (List.mem_append_right blanks (List.mem_singleton_self '\n'))
  have hallBlank : ∀ c ∈ front ++ '\n' :: back, Text.isBlank c = true := by
    intro c hc
    rw [← hcut] at hc
    rcases List.mem_append.mp hc with hc | hc
    · exact hall c hc
    · exact List.mem_singleton.mp hc ▸ by decide
  have hfrontBlank : ∀ c ∈ front, Text.isBlank c = true := fun c hc =>
    hallBlank c (List.mem_append_left _ hc)
  have hbackBlank : ∀ c ∈ back ++ ['\n'], Text.isBlank c = true := by
    intro c hc
    rcases List.mem_append.mp hc with hc | hc
    · exact hallBlank c (List.mem_append_right _ (List.mem_cons_of_mem _ hc))
    · exact List.mem_singleton.mp hc ▸ by decide
  have hversionLine : '\n' ∉ Text.trimEnd d.version.toList ++ front := by
    rw [List.mem_append]
    exact not_or.mpr ⟨hversion, hfront⟩
  have hend : d.version.toList ++ ['\n', '\n']
      = (Text.trimEnd d.version.toList ++ front) ++ '\n' :: (back ++ ['\n']) := by
    calc d.version.toList ++ ['\n', '\n']
        = Text.trimEnd d.version.toList ++ (blanks ++ ['\n']) ++ ['\n'] := by
          rw [← List.append_assoc, ← hblanks, List.append_assoc]
          rfl
      _ = _ := by
          rw [hcut]
          simp only [List.append_assoc, List.cons_append]
  have htrim : Text.trimChars (Text.trimEnd d.version.toList ++ front)
      = Text.trimChars d.version.toList := by
    calc Text.trimChars (Text.trimEnd d.version.toList ++ front)
        = Text.trimChars (Text.trimEnd d.version.toList) := Text.trimChars_append hfrontBlank
      _ = Text.trimChars (Text.trimEnd d.version.toList ++ blanks) :=
          (Text.trimChars_append hall).symm
      _ = Text.trimChars d.version.toList := by rw [← hblanks]
  have hchars := toList_description d
  rw [hend] at hchars
  rw [← String.ofList_toList (s := d.description), hchars]
  refine (headers_ofLines hname hversionLine hbackBlank (by simp)).trans ?_
  rw [htrim]
  rfl

/-- The name and the version in the description of a draft. -/
theorem identity_description {d : Draft} (hblank : ¬d.isBlank = true)
    (h : d.isUnbroken = true) :
    identity d.description = .ok (Text.trim d.name, Text.trim d.version) := by
  rw [isBlank, ← Text.trim_isEmpty, ← Text.trim_isEmpty] at hblank
  rw [identity, headers_description h]
  simp [lastHeader?, hblank]

/-! ### The folder of the description -/

/-- A plain folder holds a description and a note. -/
theorem isDescription_infoFolder {d : Draft} (h : d.isPlain = true) :
    isDescription (d.infoFolder ++ "/METADATA") = true ∧
      isDescription (d.infoFolder ++ "/WHEEL") = false := by
  obtain ⟨hname, hversion⟩ : '/' ∉ d.name.toList ∧ '/' ∉ d.version.toList := by
    simpa [isPlain] using h
  have hescaped : '/' ∉ d.escapedName.toList := by
    rw [escapedName, String.toList_ofList, List.mem_map]
    rintro ⟨c, hc, hslash⟩
    split at hslash
    · cases hslash
    · exact hname (hslash ▸ hc)
  have hsuffix : '/' ∉ ".dist-info".toList := by decide
  have hdash : '/' ∉ "-".toList := by decide
  have hfolder : '/' ∉ d.infoFolder.toList := by
    rw [infoFolder, String.toList_append, String.toList_append, String.toList_append]
    simp only [List.mem_append, hescaped, hversion, hsuffix, hdash, or_self, not_false_eq_true]
  have hends : ".dist-info".toList.isSuffixOf d.infoFolder.toList = true := by
    rw [List.isSuffixOf_iff_suffix, infoFolder, String.toList_append]
    exact List.suffix_append _ _
  have hpart : ∀ (letters : String) (rest : List Char), letters.toList = '/' :: rest →
      isDescription (d.infoFolder ++ letters) = (rest == "METADATA".toList) := by
    intro letters rest hletters
    rw [isDescription, String.toList_append, hletters, Text.splitFirst_append hfolder]
    simp only [hends, Bool.true_and]
  exact ⟨(hpart "/METADATA" "METADATA".toList (by decide)).trans (by decide),
    (hpart "/WHEEL" "WHEEL".toList (by decide)).trans (by decide)⟩

/-- **The only description** of a draft is the one that is written for it. -/
theorem descriptions_entries {d : Draft} (h : d.isPlain = true)
    (hfiles : ∀ e ∈ d.files, isDescription e.name = false) :
    descriptions d.entries = [⟨d.infoFolder ++ "/METADATA", Text.utf8 d.description⟩] := by
  obtain ⟨hdescription, hnote⟩ := isDescription_infoFolder h
  have hnone : d.files.filter (fun e => isDescription e.name) = [] := by
    simpa [List.filter_eq_nil_iff] using hfiles
  rw [descriptions, entries, List.filter_append, hnone]
  simp [hdescription, hnote]

/-- **Built wheels are who they are.** Whatever a draft is called and whatever else is in it, if it
    was built within the limits of the format, the wheel that is read back has the name and the
    version of the draft, without the blanks around them: given that the folder of the description
    is one folder, that no line of the description is broken and that no file of the draft is a
    description too. -/
theorem built_identity {d : Draft} (h : WithinLimits d.entries) (plain : d.isPlain = true)
    (unbroken : d.isUnbroken = true) (hfiles : ∀ e ∈ d.files, isDescription e.name = false)
    {bytes : Bytes} (hbuild : d.build = .ok bytes) :
    ∃ w, ofBytes bytes = .ok w ∧ w.name = Text.trim d.name ∧ w.version = Text.trim d.version := by
  -- A draft that was built has a name and a version, and no name twice.
  have hblank : ¬d.isBlank = true := by
    intro hblank
    rw [build_of_isBlank hblank] at hbuild
    cases hbuild
  have distinct : d.entryNames.Nodup := by
    refine Decidable.byContradiction fun hrepeated => ?_
    obtain ⟨name, hfault, -⟩ := build_of_not_nodup hblank hrepeated
    rw [hfault] at hbuild
    cases hbuild
  obtain rfl := Except.ok.inj ((build_of_nodup hblank distinct).symm.trans hbuild)
  rw [ofBytes_write h distinct, descriptions_entries plain hfiles, told, Text.ofUtf8_utf8]
  simp only [List.isEmpty_nil, if_true, identity_description hblank unbroken]
  exact ⟨_, rfl, rfl, rfl⟩

/-- A draft with blanks around the name and the version, and with files that are nearly
    descriptions. -/
def padded : Draft :=
  ⟨"\t my-demo\r", "1.0: rc\n\n", some "any", [⟨"other-2.dist-info/sub/METADATA", []⟩,
    ⟨"METADATA", Text.utf8 "Name: other\n"⟩, ⟨"a/b.dist-info/METADATA", [255]⟩]⟩

theorem built_identity_padded :
    WithinLimits padded.entries ∧ padded.isPlain = true ∧ padded.isUnbroken = true ∧
    (∀ e ∈ padded.files, isDescription e.name = false) ∧
    ∃ bytes w, padded.build = .ok bytes ∧ ofBytes bytes = .ok w ∧ w.name = "my-demo" ∧
      w.version = "1.0: rc" := by
  have hlimits : WithinLimits padded.entries :=
    ⟨by decide +kernel, by decide +kernel, by decide +kernel⟩
  have hplain : padded.isPlain = true := by decide +kernel
  have hunbroken : padded.isUnbroken = true := by decide +kernel
  have hfiles : ∀ e ∈ padded.files, isDescription e.name = false := by decide +kernel
  have hbuild : padded.build = .ok (Archive.write padded.entries) :=
    build_of_nodup (by decide +kernel) (by decide +kernel)
  have hname : Text.trim padded.name = "my-demo" := by decide +kernel
  have hversion : Text.trim padded.version = "1.0: rc" := by decide +kernel
  obtain ⟨w, hw, hwname, hwversion⟩ := built_identity hlimits hplain hunbroken hfiles hbuild
  exact ⟨hlimits, hplain, hunbroken, hfiles, _, w, hbuild, hw, hwname.trans hname,
    hwversion.trans hversion⟩

/-- A draft with a file that is a description too. -/
def doubled : Draft :=
  ⟨"demo", "1.0", none, [⟨"other-2.dist-info/METADATA", Text.utf8 "Name: other\n"⟩]⟩

/-- A draft whose folder is a folder in a folder. -/
def divided : Draft := ⟨"a/b", "1.0", none, []⟩

/-- A draft whose name is on two lines. -/
def broken : Draft := ⟨"a\nb", "1.0", none, []⟩

/-- Drafts are built whose wheels cannot be read, or have another name. -/
theorem built_misread :
    (∃ bytes, doubled.build = .ok bytes ∧ ofBytes bytes = .error .twoDescriptions) ∧
    (∃ bytes, divided.build = .ok bytes ∧ ofBytes bytes = .error .noDescription) ∧
    ∃ bytes w, broken.build = .ok bytes ∧ ofBytes bytes = .ok w ∧ w.name = "a" ∧
      Text.trim broken.name = "a\nb" := by
  have hdoubled : WithinLimits doubled.entries :=
    ⟨by decide +kernel, by decide +kernel, by decide +kernel⟩
  have hdivided : WithinLimits divided.entries :=
    ⟨by decide +kernel, by decide +kernel, by decide +kernel⟩
  have hbroken : WithinLimits broken.entries :=
    ⟨by decide +kernel, by decide +kernel, by decide +kernel⟩
  have htwo : told (descriptions doubled.entries) = .error .twoDescriptions := rfl
  have hnone : told (descriptions divided.entries) = .error .noDescription := rfl
  have hother : told (descriptions broken.entries) = .ok ("a", "1.0") := rfl
  refine ⟨⟨_, build_of_nodup (by decide +kernel) (by decide +kernel), ?_⟩,
    ⟨_, build_of_nodup (by decide +kernel) (by decide +kernel), ?_⟩, ?_⟩
  · rw [ofBytes_write hdoubled (by decide +kernel), htwo]
    rfl
  · rw [ofBytes_write hdivided (by decide +kernel), hnone]
    rfl
  · have hread := ofBytes_write hbroken (by decide +kernel)
    rw [hother] at hread
    exact ⟨_, _, build_of_nodup (by decide +kernel) (by decide +kernel), hread, rfl,
      by decide +kernel⟩

end Draft

end DocRelay.Wheel
