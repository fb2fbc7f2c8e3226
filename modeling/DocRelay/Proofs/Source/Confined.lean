import DocRelay.Proofs.Files.Tree
import DocRelay.Proofs.Source.Selection

namespace DocRelay.DirectorySource

/-!
# What a folder of wheels gives away

An address and a requirement name a file of the folder itself.  Of an address only what stands
behind its last slash counts, once blanks, query and fragment are cut off; a requirement is met by
one of the names in the folder.  So no way leads out of the folder.

* `exists_of_resolve_url`, `exists_of_resolve_requirement` — the names that are looked up;
* `fetch_confined` — the bytes that are served are those of an entry of the folder.
-/

open FileTree

/-- **The file of an address** has a name without slashes, which is looked up in the folder. -/
theorem exists_of_resolve_url {s : DirectorySource} {address path : String}
    (h : s.resolve (.url address) = .ok path) :
    ∃ file, (Locator.url address).fileName? = some file ∧ path = Path.join s.root file ∧
      '/' ∉ file.toList ∧ file ≠ "" := by
  have hfile : ∀ file, (Locator.url address).fileName? = some file → '/' ∉ file.toList := by
    intro file hfile hslash
    obtain rfl := Option.some.inj hfile
    rw [String.toList_ofList] at hslash
    exact absurd (Text.eq_false_of_mem_afterLast _ hslash) (by simp)
  rw [resolve] at h
  split at h
  · rename_i file hname
    split at h
    · cases h
    · rename_i hne
      refine ⟨file, hname, (Except.ok.inj h).symm, hfile file hname, ?_⟩
      rintro rfl
      exact hne rfl
  · cases h

/-- **The file of a requirement** is an entry of the folder. -/
theorem exists_of_resolve_requirement {s : DirectorySource} {name path : String}
    {version : Option String} (h : s.resolve (.requirement name version) = .ok path) :
    ∃ entries file, s.files.find s.root = .ok (.folder entries) ∧ file ∈ Table.keys entries ∧
      path = Path.join s.root file := by
  rw [resolve] at h
  split at h
  · cases h
  · rename_i names hlist
    split at h
    · rename_i file hbest
      obtain ⟨place, hfind, hnames⟩ := exists_of_bind_ok hlist
      cases place with
      | file content => cases hnames
      | folder entries =>
        obtain rfl := Except.ok.inj hnames
        rw [best_eq, Option.map_eq_some_iff] at hbest
        obtain ⟨c, hc, rfl⟩ := hbest
        exact ⟨entries, c.2, hfind, (mem_candidates.mp (champion?_mem hc)).1,
          (Except.ok.inj h).symm⟩
    · cases h

/-- The names in a folder of a well-named tree have no slashes. -/
theorem notMem_of_mem_keys {t : FileTree} (h : t.wellNamed = true) {path : String}
    {entries : List (String × FileTree)} (hfind : t.find path = .ok (.folder entries))
    {file : String} (hfile : file ∈ Table.keys entries) : '/' ∉ file.toList := by
  obtain ⟨way, -, hat⟩ := exists_of_bind_ok hfind
  have hentries : wellNamed (.folder entries) = true := by
    split at hat
    · rename_i place hplace
      exact wellNamed_at? h (Except.ok.inj hat ▸ hplace)
    · cases hat
  obtain ⟨⟨other, u⟩, hmem, rfl⟩ := List.mem_map.mp hfile
  have hname := (of_mem_entriesWellNamed hentries hmem).1
  simp only [isName, Bool.and_eq_true, Bool.not_eq_true', List.contains_eq_mem,
    decide_eq_false_iff_not] at hname
  exact hname.1.1.1

/-- **Nothing outside the folder is served** for an address or a requirement.  Whatever the locator
    is and whatever files there are, the bytes that are fetched are those of a file that is an entry
    of the folder.  What an address adds to the path is not empty, has no slash in it and keeps the
    path inside the folder's own. -/
theorem fetch_confined (s : DirectorySource) (named : s.files.wellNamed = true)
    (spec : PackageSpec) (h : ∀ file, spec.target ≠ .path file) :
    (∀ bytes, s.fetch spec = .ok bytes →
      ∃ entries name, s.files.base s.root = .ok (.folder entries) ∧
        Table.get? entries name = some (.file bytes)) ∧
    ∀ address, spec.target = .url address → ∀ path, s.resolve spec.target = .ok path →
      ∃ file, spec.target.fileName? = some file ∧ path = Path.join s.root file ∧
        '/' ∉ file.toList ∧ file ≠ "" ∧ Path.isAbsolute file = false ∧
        s.root.toList <+: path.toList := by
  constructor
  · intro bytes hfetch
    rw [fetch] at hfetch
    split at hfetch
    · cases hfetch
    · rename_i path hresolve
      have hread : s.files.read path = .ok bytes := by
        split at hfetch
        · rename_i content hcontent
          rw [hcontent, Except.ok.inj hfetch]
        · cases hfetch
      -- Either way one name without slashes is looked up in the folder.
      have hname : ∃ file, '/' ∉ file.toList ∧ path = Path.join s.root file := by
        cases htarget : spec.target with
        | url address =>
          rw [htarget] at hresolve
          obtain ⟨file, -, hpath, hslash, -⟩ := exists_of_resolve_url hresolve
          exact ⟨file, hslash, hpath⟩
        | path file => exact absurd htarget (h file)
        | requirement name version =>
          rw [htarget] at hresolve
          obtain ⟨entries, file, hfind, hfile, hpath⟩ := exists_of_resolve_requirement hresolve
          exact ⟨file, notMem_of_mem_keys named hfind hfile, hpath⟩
      obtain ⟨file, hslash, rfl⟩ := hname
      obtain ⟨entries, hbase, hget⟩ := get?_of_read_join hslash hread
      exact ⟨entries, file, hbase, hget⟩
  · intro address htarget path hresolve
    rw [htarget] at hresolve ⊢
    obtain ⟨file, hfile, rfl, hslash, hne⟩ := exists_of_resolve_url hresolve
    refine ⟨file, hfile, rfl, hslash, hne, Path.isAbsolute_of_notMem hslash, ?_⟩
    obtain ⟨rest, hrest⟩ := Path.exists_join_eq s.root hslash
    rw [hrest, String.toList_append]
    exact List.prefix_append _ _

/-- A folder of wheels beside another file. -/
def beside : DirectorySource :=
  ⟨"wheels", .folder [("secret", .file [9]),
    ("wheels", .folder [("pkg-1.0-py3-none-any.whl", .file [1, 2])])]⟩

/-- An address with ways back before its last name, in its query and in its fragment. -/
theorem fetch_confined_beside :
    let spec : PackageSpec :=
      ⟨" https://host/../pkg-1.0-py3-none-any.whl?/../secret#/../../secret ", none⟩
    beside.files.wellNamed = true ∧ (∀ file, spec.target ≠ .path file) ∧
    (beside.fetch spec).toOption = some [1, 2] ∧
    ∃ entries name, beside.files.base "wheels" = .ok (.folder entries) ∧
      Table.get? entries name = some (.file [1, 2]) := by
  intro spec
  have htarget : spec.target
      = .url "https://host/../pkg-1.0-py3-none-any.whl?/../secret#/../../secret" := by decide
  have hkind : ∀ file, spec.target ≠ .path file := by
    intro file hfile
    rw [htarget] at hfile
    cases hfile
  have hfetch : (beside.fetch spec).toOption = some [1, 2] := by decide +kernel
  refine ⟨by decide, hkind, hfetch, ?_⟩
  cases h : beside.fetch spec with
  | error fault =>
    rw [h] at hfetch
    cases hfetch
  | ok bytes =>
    rw [h] at hfetch
    obtain rfl := Option.some.inj hfetch
    exact (fetch_confined beside (by decide) spec hkind).1 _ h

end DocRelay.DirectorySource
