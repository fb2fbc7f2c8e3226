import DocRelay.Proofs.Archive.RoundTrip
import DocRelay.Wheel.Basic
import DocRelay.Wheel.Draft

namespace DocRelay.Wheel

/-!
# Building wheels and reading them back

A draft with a name and a version is built into a wheel if its entries have different names.  The
archive is read back as it was written, whatever the names and the contents of the files are, so
that only the description can keep the wheel from being read.

* `descriptions`, `told` — the descriptions among some entries, and what they tell;
* `findDescription_listing` — how the description is found;
* `ofBytes_write` — the wheel that an archive is;
* `splitRepeated_distinct`, `exists_repeated` — archives with all entries, or cut before a name;
* `Draft.built_readBack` — what comes of a draft.
-/

open Archive (Entry CentralEntry listing WithinLimits)

/-! ### Descriptions -/

/-- The descriptions among entries. -/
def descriptions (entries : List Entry) : List Entry :=
  entries.filter fun e => isDescription e.name

/-- What descriptions tell: the first one must be a text, must be the only one, and must have a
    name and a version. -/
def told : List Entry → Except Fault (String × String)
  | [] => .error .noDescription
  | e :: others =>
    match Text.ofUtf8 e.contents with
    | .error _ => .error (.archive .notText)
    | .ok text => if others.isEmpty then identity text else .error .twoDescriptions

/-- The text of the only description, after one may have been found before. -/
def pick : Option String → List Entry → Except Fault (Option String)
  | found, [] => .ok found
  | some _, _ :: _ => .error .twoDescriptions
  | none, e :: others =>
    match Text.ofUtf8 e.contents with
    | .error _ => .error (.archive .notText)
    | .ok text => pick (some text) others

/-- A text that does not tell the name and the version is refused as that. -/
theorem fault_of_identity {text : String} {fault : Fault} (h : identity text = .error fault) :
    fault = .noNameOrVersion := by
  rw [identity] at h
  split at h
  · split at h
    · exact (Except.error.inj h).symm
    · cases h
  · exact (Except.error.inj h).symm

/-- Only a description that is missing, no text, not the only one or without a name and a version
    is at fault. -/
theorem fault_of_told {entries : List Entry} {fault : Fault} (h : told entries = .error fault) :
    fault ∈ [.noDescription, .archive .notText, .twoDescriptions, .noNameOrVersion] := by
  cases entries with
  | nil =>
    obtain rfl := Except.error.inj h
    simp
  | cons e others =>
    rw [told] at h
    split at h
    · obtain rfl := Except.error.inj h
      simp
    · split at h
      · simp [fault_of_identity h]
      · obtain rfl := Except.error.inj h
        simp

/-- What is told is the identity in the text that is picked. -/
theorem told_eq (entries : List Entry) :
    (pick none entries >>= fun found =>
      match found with
      | none => .error .noDescription
      | some text => identity text) = told entries := by
  cases entries with
  | nil => rfl
  | cons e others =>
    rw [pick, told]
    cases Text.ofUtf8 e.contents with
    | error fault => rfl
    | ok text => cases others <;> rfl

/-- **The description is found** among the entries of an archive, all of which can be opened. -/
theorem findDescription_listing {bytes before after : Bytes} {entries : List Entry}
    (h : bytes = before ++ (Archive.localPart entries ++ after))
    (hnames : ∀ e ∈ entries, (Archive.nameBytes e).length < 65536) (found : Option String) :
    findDescription bytes found (listing before.length entries)
      = pick found (descriptions entries) := by
  induction entries generalizing before found with
  | nil => rfl
  | cons e rest ih =>
    have hrecord : bytes
        = before ++ (Archive.localRecord e ++ (Archive.localPart rest ++ after)) := by
      rw [h]
      simp [Archive.localPart]
    have hbehind : bytes
        = (before ++ Archive.localRecord e) ++ (Archive.localPart rest ++ after) := by
      rw [hrecord, List.append_assoc]
    have hrest : ∀ found, findDescription bytes found
        (listing (before.length + (Archive.localRecord e).length) rest)
          = pick found (descriptions rest) := by
      intro found
      rw [← ih hbehind (fun other hother => hnames other (List.mem_cons_of_mem _ hother)),
        List.length_append]
    -- Every entry is opened, but only a description is read.
    rw [listing, findDescription, Archive.locate_ofEntry hrecord (hnames e List.mem_cons_self)]
    show (if !isDescription e.name then _ else _) = _
    rw [descriptions, List.filter_cons, ← descriptions]
    by_cases hd : isDescription e.name = true
    · rw [if_pos hd, hd]
      cases found with
      | some text => rfl
      | none =>
        have htext := Archive.text_ofEntry hrecord
        simp only [Bool.not_true, Bool.false_eq_true, if_false, Option.isSome_none, htext]
        rw [pick]
        cases Text.ofUtf8 e.contents with
        | error fault => rfl
        | ok text => exact hrest (some text)
    · rw [if_neg hd, if_pos (by simpa using hd)]
      exact hrest found

/-- **The wheel that an archive is.** -/
theorem ofBytes_write {entries : List Entry} (h : WithinLimits entries)
    (distinct : (entries.map (·.name)).Nodup) :
    ofBytes (Archive.write entries)
      = (told (descriptions entries)).map fun (name, version) =>
        ⟨name, version, (entries.map (·.name)).filter fun f => !isDirectory f,
          Digest.compute (Archive.write entries)⟩ := by
  -- The listing counts from the front of the archive, so nothing stands before its first file.
  have hwrite : Archive.write entries = [] ++ (Archive.localPart entries
      ++ (Archive.directoryFrom 0 entries ++ Archive.lastRecord entries)) :=
    List.append_assoc _ _ _
  have hfind : findDescription (Archive.write entries) none (listing 0 entries)
      = pick none (descriptions entries) := findDescription_listing hwrite h.names none
  rw [ofBytes, Archive.directory_write h distinct, ← told_eq]
  dsimp only
  rw [hfind, Archive.names_listing]
  cases pick none (descriptions entries) with
  | error fault => rfl
  | ok found =>
    cases found with
    | none => rfl
    | some text =>
      show (identity text >>= _) = (identity text).map _
      cases identity text <;> rfl

/-! ### Names that are used again -/

/-- Entries with different names all come before the first name that is used again. -/
theorem splitRepeated_distinct {seen : List String} {entries : List Entry}
    (hnew : ∀ e ∈ entries, e.name ∉ seen) (distinct : (entries.map (·.name)).Nodup) :
    Archive.splitRepeated seen entries = (entries, none) := by
  induction entries generalizing seen with
  | nil => rfl
  | cons e rest ih =>
    obtain ⟨hother, hrest⟩ := List.nodup_cons.mp distinct
    have hseen : ¬seen.contains e.name = true := by
      simpa using hnew e List.mem_cons_self
    have hnext : ∀ other ∈ rest, other.name ∉ e.name :: seen := by
      intro other hmem hname
      rcases List.mem_cons.mp hname with hname | hname
      · exact hother (List.mem_map.mpr ⟨other, hmem, hname⟩)
      · exact hnew other (List.mem_cons_of_mem _ hmem) hname
    rw [Archive.splitRepeated, if_neg hseen, ih hnext hrest]

/-- Among entries that do not all have different and new names, the first one that is not new or
    used before is told. -/
theorem exists_repeated {seen : List String} {entries : List Entry}
    (h : ¬((entries.map (·.name)).Nodup ∧ ∀ e ∈ entries, e.name ∉ seen)) :
    ∃ front e back, entries = front ++ e :: back ∧
      Archive.splitRepeated seen entries = (front, some e.name) ∧
      (e.name ∈ seen ∨ e.name ∈ front.map (·.name)) := by
  induction entries generalizing seen with
  | nil => simp at h
  | cons e rest ih =>
    by_cases hseen : e.name ∈ seen
    · refine ⟨[], e, rest, rfl, ?_, .inl hseen⟩
      rw [Archive.splitRepeated, if_pos (by simpa using hseen)]
    · have hrest : ¬((rest.map (·.name)).Nodup ∧ ∀ other ∈ rest, other.name ∉ e.name :: seen) := by
        rintro ⟨hnodup, hnew⟩
        refine h ⟨List.nodup_cons.mpr ⟨fun hmem => ?_, hnodup⟩, fun other hother => ?_⟩
        · obtain ⟨other, hother, hname⟩ := List.mem_map.mp hmem
          exact hnew other hother (hname ▸ List.mem_cons_self)
        · rcases List.mem_cons.mp hother with rfl | hother
          · exact hseen
          · exact fun hmem => hnew other hother (List.mem_cons_of_mem _ hmem)
      obtain ⟨front, first, back, rfl, hsplit, hused⟩ := ih hrest
      refine ⟨e :: front, first, back, rfl, ?_, ?_⟩
      · rw [Archive.splitRepeated, if_neg (by simpa using hseen), hsplit]
      · rcases hused with hused | hused
        · rcases List.mem_cons.mp hused with hname | hused
          · exact .inr (hname ▸ List.mem_cons_self)
          · exact .inl hused
        · exact .inr (List.mem_cons_of_mem _ hused)

namespace Draft

/-- The name or the version is blank. -/
def isBlank (d : Draft) : Bool :=
  Text.isBlankText d.name || Text.isBlankText d.version

/-- The names of the entries. -/
def entryNames (d : Draft) : List String :=
  d.entries.map (·.name)

theorem build_of_isBlank {d : Draft} (h : d.isBlank = true) :
    d.build = .error .blankNameOrVersion := by
  rw [build, outcome, ← isBlank, if_pos h]

theorem build_of_nodup {d : Draft} (h : ¬d.isBlank = true) (distinct : d.entryNames.Nodup) :
    d.build = .ok (Archive.write d.entries) := by
  have hsplit : Archive.splitRepeated [] d.entries = (d.entries, none) :=
    splitRepeated_distinct (fun _ _ => List.not_mem_nil) distinct
  rw [build, outcome, ← isBlank, if_neg h, hsplit]
  rfl

theorem build_of_not_nodup {d : Draft} (h : ¬d.isBlank = true) (hrepeated : ¬d.entryNames.Nodup) :
    ∃ name, d.build = .error (.archive (.duplicateName name)) ∧
      2 ≤ d.entryNames.count name := by
  have hnot : ¬((d.entries.map (·.name)).Nodup ∧ ∀ e ∈ d.entries, e.name ∉ []) :=
    fun hall => hrepeated hall.1
  obtain ⟨front, e, back, hentries, hsplit, hused⟩ := exists_repeated hnot
  refine ⟨e.name, ?_, ?_⟩
  · rw [build, outcome, ← isBlank, if_neg h, hsplit]
    rfl
  · have hfront : 0 < (front.map (·.name)).count e.name :=
      List.count_pos_iff.mpr (hused.resolve_left List.not_mem_nil)
    rw [entryNames, hentries, List.map_append, List.map_cons, List.count_append,
      List.count_cons_self]
    omega

/-- The files of the wheel, in the order of the draft, then the description and the note. -/
theorem files_eq (d : Draft) :
    (d.entries.map (·.name)).filter (fun f => !isDirectory f)
      = (d.files.map (·.name)).filter (fun f => !isDirectory f)
        ++ [d.infoFolder ++ "/METADATA", d.infoFolder ++ "/WHEEL"] := by
  -- The two names that are added end in a letter, whatever the folder is called.
  have hlast : ∀ (letters : String) (c : Char), letters.toList.getLast? = some c →
      ¬(c == '/' || c == '\\') = true → isDirectory (d.infoFolder ++ letters) = false := by
    intro letters c hc hslash
    rw [isDirectory, String.toList_append, List.getLast?_append, hc]
    simpa using hslash
  have hdescription : isDirectory (d.infoFolder ++ "/METADATA") = false :=
    hlast "/METADATA" 'A' (by decide) (by decide)
  have hnote : isDirectory (d.infoFolder ++ "/WHEEL") = false :=
    hlast "/WHEEL" 'L' (by decide) (by decide)
  simp [entries, hdescription, hnote]

/-- **Built wheels.** Within the limits of the format a draft without a name or a version is
    refused, a draft in which a name is used twice is refused for such a name, and every other
    draft is built.  The wheel is read back: it has the name and the version that its description
    tells, the files of the draft and then the description and the note, all without the
    directories, and the digest of its bytes.  Only the description can be at fault. -/
theorem built_readBack {d : Draft} (h : WithinLimits d.entries) :
    (d.isBlank = true → d.build = .error .blankNameOrVersion) ∧
    (¬d.isBlank = true → ¬d.entryNames.Nodup → ∃ name,
      d.build = .error (.archive (.duplicateName name)) ∧ 2 ≤ d.entryNames.count name) ∧
    (¬d.isBlank = true → d.entryNames.Nodup → ∃ bytes, d.build = .ok bytes) ∧
    ∀ bytes, d.build = .ok bytes →
      (ofBytes bytes = (told (descriptions d.entries)).map fun (name, version) =>
        ⟨name, version, (d.files.map (·.name)).filter (fun f => !isDirectory f)
          ++ [d.infoFolder ++ "/METADATA", d.infoFolder ++ "/WHEEL"], Digest.compute bytes⟩) ∧
      ∀ fault, ofBytes bytes = .error fault →
        fault ∈ [.noDescription, .archive .notText, .twoDescriptions, .noNameOrVersion] := by
  refine ⟨build_of_isBlank, build_of_not_nodup, fun hblank distinct =>
    ⟨_, build_of_nodup hblank distinct⟩, fun bytes hbytes => ?_⟩
  -- A draft that was built has neither fault.
  have hblank : ¬d.isBlank = true := by
    intro hblank
    rw [build_of_isBlank hblank] at hbytes
    cases hbytes
  have distinct : d.entryNames.Nodup := by
    refine Decidable.byContradiction fun hrepeated => ?_
    obtain ⟨name, hbuild, -⟩ := build_of_not_nodup hblank hrepeated
    rw [hbuild] at hbytes
    cases hbytes
  obtain rfl := Except.ok.inj ((build_of_nodup hblank distinct).symm.trans hbytes)
  have hread := ofBytes_write h distinct
  rw [files_eq] at hread
  refine ⟨hread, fun fault hfault => ?_⟩
  rw [hread] at hfault
  cases htold : told (descriptions d.entries) with
  | error other =>
    rw [htold] at hfault
    obtain rfl := Except.error.inj hfault
    exact fault_of_told htold
  | ok identity =>
    rw [htold] at hfault
    cases hfault

/-- A draft with a directory and with a file that is a wheel of its own. -/
def nested : Draft :=
  let inner : List Entry :=
    [⟨"inner-9.dist-info/METADATA", Text.utf8 "Name: inner\nVersion: 9\n"⟩]
  ⟨"demo", "1.0", none, [⟨"donn\u00e9es/", []⟩, ⟨"donn\u00e9es/inner.whl", Archive.write inner⟩]⟩

/-- The marks of the wheel inside are not taken for those of the wheel around it. -/
theorem built_readBack_nested :
    WithinLimits nested.entries ∧ ¬nested.isBlank = true ∧ nested.entryNames.Nodup ∧
    ∃ bytes, nested.build = .ok bytes ∧
      ofBytes bytes = .ok ⟨"demo", "1.0", ["donn\u00e9es/inner.whl",
        "demo-1.0.dist-info/METADATA", "demo-1.0.dist-info/WHEEL"], Digest.compute bytes⟩ := by
  have hlimits : WithinLimits nested.entries :=
    ⟨by decide +kernel, by decide +kernel, by decide +kernel⟩
  have hblank : ¬nested.isBlank = true := by decide +kernel
  have distinct : nested.entryNames.Nodup := by decide +kernel
  obtain ⟨-, -, hbuild, hread⟩ := built_readBack hlimits
  obtain ⟨bytes, hbytes⟩ := hbuild hblank distinct
  have hfiles : (nested.files.map (·.name)).filter (fun f => !isDirectory f)
      = ["donn\u00e9es/inner.whl"] := by decide +kernel
  have hfolder : nested.infoFolder = "demo-1.0.dist-info" := by decide +kernel
  have htold : (told (descriptions nested.entries)).toOption = some ("demo", "1.0") := by
    decide +kernel
  refine ⟨hlimits, hblank, distinct, bytes, hbytes, ?_⟩
  rw [(hread bytes hbytes).1, hfiles, hfolder]
  cases h : told (descriptions nested.entries) with
  | error fault =>
    rw [h] at htold
    cases htold
  | ok identity =>
    rw [h] at htold
    obtain rfl := Option.some.inj htold
    rfl

end Draft

end DocRelay.Wheel
