import DocRelay.Files.Tree
import DocRelay.Proofs.Results
import DocRelay.Proofs.Table
import DocRelay.Proofs.Text.Split
import DocRelay.Proofs.Text.Utf8

namespace DocRelay

/-!
# Looking up paths

A path is followed name by name, so one name in a folder leads to an entry of that folder, to the
folder itself or to a folder around it, and never to a file anywhere else.

* `FileTree.isName`, `FileTree.wellNamed` — the names that entries of folders have;
* `Path.exists_parts_join` — the way to a name in a folder begins with the way to the folder;
* `FileTree.follow_append` — a path in two parts;
* `FileTree.base` — the folder that relative paths start from, or the one at a path;
* `FileTree.get?_of_read_join` — a file that one name in a folder leads to.
-/

namespace FileTree

/-! ### Names of entries -/

/-- A name that an entry of a folder may have: it leads neither into other folders nor back. -/
def isName (name : String) : Bool :=
  !name.toList.contains '/' && name != "" && name != "." && name != ".."

mutual

/-- All entries have names that entries may have. -/
def wellNamed : FileTree → Bool
  | .file _ => true
  | .folder entries => entriesWellNamed entries

/-- The entries have such names, and all entries in them. -/
def entriesWellNamed : List (String × FileTree) → Bool
  | [] => true
  | (name, t) :: rest => isName name && wellNamed t && entriesWellNamed rest

end

theorem of_mem_entriesWellNamed {entries : List (String × FileTree)}
    (h : entriesWellNamed entries = true) {name : String} {t : FileTree}
    (hmem : (name, t) ∈ entries) : isName name = true ∧ wellNamed t = true := by
  induction entries with
  | nil => cases hmem
  | cons entry rest ih =>
    obtain ⟨other, u⟩ := entry
    rw [entriesWellNamed, Bool.and_eq_true, Bool.and_eq_true] at h
    rcases List.mem_cons.mp hmem with heq | hmem
    · cases heq
      exact h.1
    · exact ih h.2 hmem

/-- What is in a well-named tree is well-named. -/
theorem wellNamed_at? {t u : FileTree} {way : List String} (h : t.wellNamed = true)
    (hat : t.at? way = some u) : u.wellNamed = true := by
  induction way generalizing t with
  | nil =>
    obtain rfl := Option.some.inj hat
    exact h
  | cons name rest ih =>
    rw [at?] at hat
    split at hat
    · rename_i next hnext
      cases t with
      | file content => cases hnext
      | folder entries => exact ih (of_mem_entriesWellNamed h (Table.mem_of_get? hnext)).2 hat
    · cases hat

/-! ### Ways -/

theorem at?_append (t : FileTree) (way rest : List String) :
    t.at? (way ++ rest) = (t.at? way).bind fun u => u.at? rest := by
  induction way generalizing t with
  | nil => rfl
  | cons name others ih =>
    rw [List.cons_append, at?, at?]
    cases t.entry? name with
    | none => rfl
    | some next => exact ih next

/-- Going back from a place leads to a folder, or stays at the top. -/
theorem at?_dropLast {t : FileTree} {way : List String} {entries : List (String × FileTree)}
    (h : t.at? way = some (.folder entries)) :
    ∃ others, t.at? way.dropLast = some (.folder others) := by
  rcases List.eq_nil_or_concat way with rfl | ⟨front, name, rfl⟩
  · exact ⟨entries, h⟩
  · rw [List.concat_eq_append, at?_append] at h
    rw [List.concat_eq_append, List.dropLast_concat]
    obtain ⟨u, hu, hname⟩ := Option.bind_eq_some_iff.mp h
    cases u with
    | file content => cases hname
    | folder others => exact ⟨others, hu⟩

/-- **A path in two parts** is followed one after the other. -/
theorem follow_append (t : FileTree) (way names rest : List String) :
    t.follow way (names ++ rest) = t.follow way names >>= fun place => t.follow place rest := by
  induction names generalizing way with
  | nil => rfl
  | cons name others ih =>
    rw [List.cons_append, follow, follow]
    cases t.at? way with
    | none => rfl
    | some u =>
      cases u with
      | file content => rfl
      | folder entries =>
        dsimp only
        split
        · exact ih way
        · split
          · exact ih way.dropLast
          · split
            · rfl
            · split
              · exact ih (way ++ [name])
              · rfl

/-- **One name leads to a file** only if the file is an entry of the folder. -/
theorem of_follow_file {t : FileTree} {way place : List String} {name : String} {content : Bytes}
    (h : t.follow way [name] = .ok place) (hfile : t.at? place = some (.file content)) :
    ∃ entries, t.at? way = some (.folder entries) ∧
      Table.get? entries name = some (.file content) := by
  rw [follow] at h
  cases hway : t.at? way with
  | none =>
    rw [hway] at h
    cases h
  | some u =>
    cases u with
    | file other =>
      rw [hway] at h
      cases h
    | folder entries =>
      rw [hway] at h
      dsimp only at h
      refine ⟨entries, rfl, ?_⟩
      split at h
      · -- The name stays in the folder, which is no file.
        obtain rfl := Except.ok.inj h
        rw [hway] at hfile
        cases hfile
      · split at h
        · -- The name goes back to a folder.
          obtain rfl := Except.ok.inj h
          obtain ⟨others, hback⟩ := at?_dropLast hway
          rw [hback] at hfile
          cases hfile
        · split at h
          · cases h
          · split at h
            · obtain rfl := Except.ok.inj h
              rw [at?_append, hway] at hfile
              show entry? (.folder entries) name = _
              rw [Option.bind_some, at?] at hfile
              split at hfile
              · rename_i next hnext
                rw [hnext]
                exact hfile
              · cases hfile
            · cases h

end FileTree

/-! ### Names in folders -/

namespace Path

/-- A path that begins with no slash. -/
theorem isAbsolute_of_notMem {path : String} (h : '/' ∉ path.toList) :
    isAbsolute path = false := by
  rw [isAbsolute, beq_eq_false_iff_ne]
  exact fun hhead => h (List.mem_of_head? hhead)

/-- A name is the only part of itself. -/
theorem parts_of_notMem {path : String} (h : '/' ∉ path.toList) : parts path = [path] := by
  have hplain : ∀ c ∈ path.toList, (c == '/') = false := fun c hc =>
    beq_eq_false_iff_ne.mpr fun he => h (he ▸ hc)
  rw [parts, Text.split_of_notMem hplain]
  simp

/-- A slash parts a path. -/
theorem parts_append_slash (front back : String) :
    parts (front ++ "/" ++ back) = parts front ++ parts back := by
  have hchars : (front ++ "/" ++ back).toList = front.toList ++ '/' :: back.toList := by simp
  rw [parts, hchars, Text.split_append_cons (p := (· == '/')) rfl, List.map_append, parts, parts]

/-- The text of a path ends in a slash. -/
theorem exists_of_getLast? {path : String} (h : path.toList.getLast? = some '/') :
    ∃ front, path = front ++ "/" := by
  obtain ⟨front, hfront⟩ := List.getLast?_eq_some_iff.mp h
  refine ⟨String.ofList front, String.toList_injective ?_⟩
  rw [hfront]
  simp

/-- **A name in a folder**: the path goes to the folder and then to the name. -/
theorem exists_parts_join (folder : String) {name : String} (h : '/' ∉ name.toList) :
    ∃ names, parts (join folder name) = names ++ [name] ∧
      (parts folder = names ∨ parts folder = names ++ [""]) := by
  rw [join, isAbsolute_of_notMem h, if_neg Bool.false_ne_true]
  split
  · rename_i hend
    rw [Bool.or_eq_true, beq_iff_eq, String.isEmpty_iff] at hend
    rcases hend with rfl | hend
    · exact ⟨[], by rw [String.empty_append, parts_of_notMem h]; rfl, .inr rfl⟩
    · obtain ⟨front, rfl⟩ := exists_of_getLast? hend
      refine ⟨parts front, ?_, .inr ?_⟩
      · rw [parts_append_slash, parts_of_notMem h]
      · have hempty := parts_append_slash front ""
        rwa [String.append_empty] at hempty
  · exact ⟨parts folder, by rw [parts_append_slash, parts_of_notMem h], .inl rfl⟩

/-- The path of a name in a folder begins with the path of the folder. -/
theorem exists_join_eq (folder : String) {name : String} (h : '/' ∉ name.toList) :
    ∃ rest, join folder name = folder ++ rest := by
  rw [join, isAbsolute_of_notMem h, if_neg Bool.false_ne_true]
  split
  · exact ⟨name, rfl⟩
  · exact ⟨"/" ++ name, String.append_assoc⟩

/-- What begins a path that can be looked up can be looked up itself. -/
theorem check_of_append {folder rest : String} (hne : folder ≠ "")
    (h : check (folder ++ rest) = none) : check folder = none := by
  have happend : (Text.utf8 (folder ++ rest)).length
      = (Text.utf8 folder).length + (Text.utf8 rest).length := by
    rw [Text.utf8, String.toList_append, Text.utf8Chars, List.flatMap_append, List.length_append]
    rfl
  simp only [check, happend, String.toList_append, List.contains_append, Bool.or_eq_true,
    String.isEmpty_iff] at h ⊢
  split at h
  · cases h
  · rename_i hzero
    split at h
    · cases h
    · split at h
      · cases h
      · rename_i hlong
        rw [if_neg fun hz => hzero (.inl hz), if_neg hne, if_neg (by omega)]

end Path

namespace FileTree

/-- The folder at a path; relative paths start at the top. -/
def base (t : FileTree) (path : String) : Except FileFault FileTree :=
  if path.isEmpty then .ok t else t.find path

/-- What a path names is at the place that the path is resolved to. -/
theorem find_of_at? {t u : FileTree} {path : String} {way : List String}
    (hway : t.resolve path = .ok way) (hu : t.at? way = some u) : t.find path = .ok u := by
  simp only [find, hway, hu, bind, Except.bind]
  rfl

/-- A file that is read is at the place that its path is followed to. -/
theorem exists_of_read {t : FileTree} {path : String} {content : Bytes}
    (h : t.read path = .ok content) : Path.check path = none ∧
      ∃ place, t.follow [] (Path.parts path) = .ok place ∧ t.at? place = some (.file content) := by
  obtain ⟨u, hfind, hu⟩ := exists_of_bind_ok h
  obtain ⟨place, hplace, hat⟩ := exists_of_bind_ok hfind
  have hfile : u = .file content := by
    cases u with
    | file other => exact congrArg FileTree.file (Except.ok.inj hu)
    | folder entries => cases hu
  have hat : t.at? place = some (.file content) := by
    split at hat
    · rename_i found hfound
      rw [hfound, Except.ok.inj hat, hfile]
    · cases hat
  rw [resolve] at hplace
  split at hplace
  · cases hplace
  · rename_i hnone
    exact ⟨hnone, place, hplace, hat⟩

/-- The folder that a path is followed to. -/
theorem base_of_follow {t u : FileTree} {path : String} {way : List String}
    (hcheck : path ≠ "" → Path.check path = none)
    (hway : t.follow [] (Path.parts path) = .ok way) (hu : t.at? way = some u) :
    t.base path = .ok u := by
  rw [base]
  split
  · rename_i hempty
    -- The empty path leads to the top.
    obtain rfl := String.isEmpty_iff.mp hempty
    have htop : way = [] := by
      have htop : t.follow [] [""] = .ok way := hway
      cases t with
      | file other => cases htop
      | folder others => exact (Except.ok.inj htop).symm
    rw [htop] at hu
    exact congrArg Except.ok (Option.some.inj hu)
  · rename_i hempty
    refine find_of_at? ?_ hu
    rw [resolve, hcheck fun he => hempty (String.isEmpty_iff.mpr he)]
    exact hway

/-- **A file that a name in a folder leads to** is an entry of the folder. -/
theorem get?_of_read_join {t : FileTree} {folder name : String} {content : Bytes}
    (hname : '/' ∉ name.toList) (h : t.read (Path.join folder name) = .ok content) :
    ∃ entries, t.base folder = .ok (.folder entries) ∧
      Table.get? entries name = some (.file content) := by
  obtain ⟨hcheck, place, hplace, hat⟩ := exists_of_read h
  -- The path goes to the folder first.
  obtain ⟨names, hparts, hfolder⟩ := Path.exists_parts_join folder hname
  rw [hparts, follow_append] at hplace
  obtain ⟨way, hway, hlast⟩ := exists_of_bind_ok hplace
  obtain ⟨entries, hentries, hget⟩ := of_follow_file hlast hat
  have hstay : t.follow way [""] = .ok way := by
    rw [follow, hentries]
    rfl
  have hreach : t.follow [] (Path.parts folder) = .ok way := by
    rcases hfolder with hfolder | hfolder
    · rw [hfolder, hway]
    · rw [hfolder, follow_append, hway]
      exact hstay
  obtain ⟨rest, hjoin⟩ := Path.exists_join_eq folder hname
  exact ⟨entries, base_of_follow (fun hne => Path.check_of_append hne (hjoin ▸ hcheck)) hreach
    hentries, hget⟩

end FileTree

end DocRelay
