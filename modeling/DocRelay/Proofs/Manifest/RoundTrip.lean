import DocRelay.Manifest.Toml
import DocRelay.Proofs.Text.Utf8
import DocRelay.Proofs.Toml.Document
import DocRelay.Proofs.Toml.Readings

namespace DocRelay

/-!
# Manifests and their texts

A manifest that was read from a configuration text is written and read back: in the text the plain
values of each table come first, but a manifest does not depend on the order.  What no text can
hold are the nulls that stand for numbers that are not finite.

* `PackageSpec.decode_toJson`, `WorkerSection.decode_toJson`, `ApplicationDescriptor.decode_value`
  — the parts;
* `WorkerManifest.found_members`, `WorkerManifest.decode_foundMembers` — what is found of a text
  that was written;
* `WorkerManifest.bindingsIn` — the bindings in the value of a text;
* `WorkerManifest.of_ofToml` — what is known of a manifest that was read;
* `WorkerManifest.ofToml_toToml` — it is written and read back.
-/

open Json (check_field fillByName_cons Shape.decode_obj)

theorem PackageSpec.decode_toJson (dialect : Json.Dialect) (p : PackageSpec) :
    PackageSpec.decode dialect p.toJson = .ok p := by
  obtain ⟨locator, hash⟩ := p
  have hlocator : Json.asText (.str locator) = .ok locator := rfl
  cases hash with
  | none =>
    refine Shape.decode_obj dialect (fillByName_cons rfl rfl (check_field hlocator) rfl) ?_
    simp only [Json.Slots.required, Json.Slots.optional, List.lookup_cons, beq_self_eq_true,
      show (("hash" : String) == "locator") = false by decide, List.lookup_nil, hlocator]
    rfl
  | some hash =>
    have hhash : Json.asOption Json.asText (.str hash) = .ok (some hash) := rfl
    refine Shape.decode_obj dialect (fillByName_cons rfl rfl (check_field hlocator)
      (fillByName_cons rfl rfl (check_field hhash) rfl)) ?_
    simp only [Json.Slots.required, Json.Slots.optional, List.lookup_cons, beq_self_eq_true,
      show (("hash" : String) == "locator") = false by decide, hlocator, hhash]
    rfl

theorem WorkerSection.decode_toJson (dialect : Json.Dialect) (w : WorkerSection) :
    WorkerSection.decode dialect w.toJson = .ok w := by
  obtain ⟨name, runtime⟩ := w
  have hname : Json.asText (.str name) = .ok name := rfl
  have hruntime : Json.asText (.str runtime) = .ok runtime := rfl
  refine Shape.decode_obj dialect (fillByName_cons rfl rfl (check_field hname)
    (fillByName_cons rfl rfl (check_field hruntime) rfl)) ?_
  simp only [Json.Slots.required, Json.Slots.optional, List.lookup_cons, beq_self_eq_true,
    show (("runtime" : String) == "name") = false by decide, hname, hruntime]
  rfl

/-- A descriptor is decoded from a value with the same bindings in another order. -/
theorem ApplicationDescriptor.decode_value (dialect : Json.Dialect) {a : ApplicationDescriptor}
    {bindings : List (String × Json)} (h : Json.canonicalTable bindings = a.bindings) :
    ApplicationDescriptor.decode dialect
      (.obj [("entry", .str a.entry), ("requires", .arr (a.requires.map .str)),
        ("location", .bool a.location), ("bindings", .obj bindings)]) = .ok a := by
  obtain ⟨entry, requires, location, known⟩ := a
  -- Each member is decoded by itself, and then looked up under its name.
  have hentry : Json.asText (.str entry) = .ok entry := rfl
  have hrequires : Json.asList Json.asText (.arr (requires.map .str)) = .ok requires :=
    Json.eachItem_map fun _ _ => rfl
  have hlocation : Json.asBool (.bool location) = .ok location := rfl
  have hbindings : Json.asTable (.obj bindings) = .ok known := congrArg Except.ok h
  refine Shape.decode_obj dialect (fillByName_cons rfl rfl (check_field hentry)
    (fillByName_cons rfl rfl (check_field hrequires)
      (fillByName_cons rfl rfl (check_field hlocation)
        (fillByName_cons rfl rfl (check_field hbindings) rfl)))) ?_
  simp only [Json.Slots.required, Json.Slots.optional, List.lookup_cons, beq_self_eq_true,
    show (("requires" : String) == "entry") = false by decide,
    show (("location" : String) == "entry") = false by decide,
    show (("location" : String) == "requires") = false by decide,
    show (("bindings" : String) == "entry") = false by decide,
    show (("bindings" : String) == "requires") = false by decide,
    show (("bindings" : String) == "location") = false by decide,
    hentry, hrequires, hlocation, hbindings]
  rfl

/-! ### What is found of a manifest -/

/-- What is found of a descriptor when its text is read. -/
def ApplicationDescriptor.foundJson (a : ApplicationDescriptor) : Json :=
  .obj [("entry", .str a.entry), ("requires", .arr (a.requires.map .str)),
    ("location", .bool a.location), ("bindings", .obj (Toml.found a.bindings))]

open Toml (found found_eq found_plain plainMembers_table plainMembers_plain plainMembers_tables
  tableNodes_table tableNodes_plain tableNodes_tables toJson_table)

theorem WorkerSection.found_toJson (w : WorkerSection) :
    found [("name", .str w.name), ("runtime", .str w.runtime)]
      = [("name", .str w.name), ("runtime", .str w.runtime)] :=
  found_plain (List.forall_mem_cons.mpr ⟨⟨rfl, rfl⟩, List.forall_mem_singleton.mpr ⟨rfl, rfl⟩⟩)

/-- The members of a package. -/
def PackageSpec.members (p : PackageSpec) : List (String × Json) :=
  ("locator", .str p.locator) ::
    match p.hash with
    | some hash => [("hash", .str hash)]
    | none => []

theorem PackageSpec.found_members (p : PackageSpec) : found p.members = p.members := by
  obtain ⟨locator, hash⟩ := p
  refine found_plain (List.forall_mem_cons.mpr ⟨⟨rfl, rfl⟩, ?_⟩)
  cases hash with
  | none => exact fun member h => absurd h List.not_mem_nil
  | some hash => exact List.forall_mem_singleton.mpr ⟨rfl, rfl⟩

/-- A list of texts is no array of tables. -/
theorem isPlain_texts (texts : List String) : Toml.IsPlain (.arr (texts.map .str)) := by
  refine ⟨rfl, ?_⟩
  cases texts <;> rfl

theorem ApplicationDescriptor.found_members (a : ApplicationDescriptor) :
    Json.obj (found [("entry", .str a.entry), ("requires", .arr (a.requires.map .str)),
      ("location", .bool a.location), ("bindings", .obj a.bindings)]) = a.foundJson := by
  have hentry : Toml.IsPlain (.str a.entry) := ⟨rfl, rfl⟩
  have hlocation : Toml.IsPlain (.bool a.location) := ⟨rfl, rfl⟩
  have hrequires := isPlain_texts a.requires
  rw [found_eq, plainMembers_plain hentry, plainMembers_plain hrequires,
    plainMembers_plain hlocation, plainMembers_table, tableNodes_plain hentry,
    tableNodes_plain hrequires, tableNodes_plain hlocation, tableNodes_table,
    Toml.entriesToJson, toJson_table]
  rfl

/-- What is found of a manifest when its text is read: a list of no packages is a plain value,
    and stands in front of the tables. -/
def WorkerManifest.foundMembers (m : WorkerManifest) : List (String × Json) :=
  if m.packages.isEmpty then
    [("packages", .arr []), ("worker", m.worker.toJson), ("application", m.application.foundJson)]
  else
    [("worker", m.worker.toJson), ("packages", .arr (m.packages.map PackageSpec.toJson)),
      ("application", m.application.foundJson)]

namespace WorkerManifest

/-- The members of a manifest. -/
def members (m : WorkerManifest) : List (String × Json) :=
  [("worker", m.worker.toJson), ("packages", .arr (m.packages.map PackageSpec.toJson)),
    ("application", m.application.toJson)]

theorem found_members (m : WorkerManifest) : found m.members = m.foundMembers := by
  obtain ⟨worker, packages, application⟩ := m
  rw [members, foundMembers]
  -- Packages are tables of their own, but a list without any is a plain value.
  cases packages with
  | nil =>
    have hnone : Toml.IsPlain (.arr []) := ⟨rfl, rfl⟩
    rw [WorkerSection.toJson, ApplicationDescriptor.toJson, List.map_nil, found_eq,
      plainMembers_table, plainMembers_plain hnone, plainMembers_table, tableNodes_table,
      tableNodes_plain hnone, tableNodes_table, Toml.entriesToJson, Toml.entriesToJson,
      toJson_table, toJson_table, WorkerSection.found_toJson, ApplicationDescriptor.found_members]
    rfl
  | cons first others =>
    have hpackages : (first :: others).map PackageSpec.toJson
        = ((first :: others).map PackageSpec.members).map .obj := by
      rw [List.map_map]
      rfl
    have hne : (first :: others).map PackageSpec.members ≠ [] := List.cons_ne_nil _ _
    have hfound : (((first :: others).map PackageSpec.members).map fun members =>
        Json.obj (found members)) = ((first :: others).map PackageSpec.members).map .obj := by
      rw [List.map_map, List.map_map]
      exact List.map_congr_left fun p _ => congrArg Json.obj p.found_members
    rw [WorkerSection.toJson, ApplicationDescriptor.toJson, hpackages, found_eq,
      plainMembers_table, plainMembers_tables _ hne, plainMembers_table, tableNodes_table,
      tableNodes_tables _ hne, tableNodes_table, Toml.entriesToJson, Toml.entriesToJson,
      Toml.entriesToJson, toJson_table, toJson_table, Toml.Node.toJson,
      Toml.elementsToJson_contents, hfound, WorkerSection.found_toJson,
      ApplicationDescriptor.found_members]
    rfl

/-- A manifest is decoded from what is found of it. -/
theorem decode_foundMembers {m : WorkerManifest}
    (h : Json.canonicalTable (found m.application.bindings) = m.application.bindings) :
    decode .config (.obj m.foundMembers) = .ok m := by
  obtain ⟨worker, packages, application⟩ := m
  have hworker := WorkerSection.decode_toJson .config worker
  have happlication : ApplicationDescriptor.decode .config application.foundJson
      = .ok application := ApplicationDescriptor.decode_value .config h
  rw [foundMembers]
  -- A list without packages is a plain member, and these are found before all tables.
  cases packages with
  | nil =>
    have hpackages : Json.asList (PackageSpec.decode .config) (.arr []) = .ok [] := rfl
    refine Shape.decode_obj .config (fillByName_cons rfl rfl (check_field hpackages)
      (fillByName_cons rfl rfl (check_field hworker)
        (fillByName_cons rfl rfl (check_field happlication) rfl))) ?_
    simp only [Json.Slots.required, Json.Slots.optional, List.lookup_cons, beq_self_eq_true,
      show (("worker" : String) == "packages") = false by decide,
      show (("application" : String) == "packages") = false by decide,
      show (("application" : String) == "worker") = false by decide,
      hworker, hpackages, happlication]
    rfl
  | cons first others =>
    have hpackages : Json.asList (PackageSpec.decode .config)
        (.arr ((first :: others).map PackageSpec.toJson)) = .ok (first :: others) :=
      Json.eachItem_map fun p _ => PackageSpec.decode_toJson .config p
    refine Shape.decode_obj .config (fillByName_cons rfl rfl (check_field hworker)
      (fillByName_cons rfl rfl (check_field hpackages)
        (fillByName_cons rfl rfl (check_field happlication) rfl))) ?_
    simp only [Json.Slots.required, Json.Slots.optional, List.lookup_cons, beq_self_eq_true,
      show (("packages" : String) == "worker") = false by decide,
      show (("application" : String) == "worker") = false by decide,
      show (("application" : String) == "packages") = false by decide,
      hworker, hpackages, happlication]
    rfl

end WorkerManifest

/-! ### What is known of a manifest that was read -/

/-- The bindings in the value of a descriptor, as they stand there. -/
def ApplicationDescriptor.bindingsIn (value : Json) : List (String × Json) :=
  ((shape.part? "bindings" value).bind Json.members?).getD []

/-- The bindings in the value of a manifest, as they stand there. -/
def WorkerManifest.bindingsIn (value : Json) : List (String × Json) :=
  (((shape .config).part? "application" value).map ApplicationDescriptor.bindingsIn).getD []

/-- The bindings of a decoded descriptor are those of its value in canonical form. -/
theorem ApplicationDescriptor.bindings_of_decode {dialect : Json.Dialect} {value : Json}
    {a : ApplicationDescriptor} (h : decode dialect value = .ok a) :
    a.bindings = Json.canonicalTable (bindingsIn value) := by
  obtain ⟨slots, hslots, hbuild⟩ := Json.Shape.exists_of_decode h
  obtain ⟨entry, -, hbuild⟩ := exists_of_bind_ok hbuild
  obtain ⟨requires, -, hbuild⟩ := exists_of_bind_ok hbuild
  obtain ⟨location, -, hbuild⟩ := exists_of_bind_ok hbuild
  obtain ⟨bindings, hbindings, hbuild⟩ := exists_of_bind_ok hbuild
  obtain rfl := Except.ok.inj hbuild
  have hslot := hslots "bindings" (by decide)
  rcases Json.Slots.exists_of_optional hbindings with ⟨hnone, rfl⟩ | ⟨part, hpart, htable⟩
  · rw [bindingsIn, ← hslot, hnone]
    rfl
  · rw [bindingsIn, ← hslot, hpart]
    cases part with
    | obj members => exact (Except.ok.inj htable).symm
    | _ => cases htable

namespace WorkerManifest

/-- **The bindings of a decoded manifest** are those of its value in canonical form. -/
theorem bindings_of_decode {value : Json} {m : WorkerManifest} (h : decode .config value = .ok m) :
    m.application.bindings = Json.canonicalTable (bindingsIn value) := by
  obtain ⟨slots, hslots, hbuild⟩ := Json.Shape.exists_of_decode h
  obtain ⟨worker, -, hbuild⟩ := exists_of_bind_ok hbuild
  obtain ⟨packages, -, hbuild⟩ := exists_of_bind_ok hbuild
  obtain ⟨application, happlication, hbuild⟩ := exists_of_bind_ok hbuild
  obtain rfl := Except.ok.inj hbuild
  obtain ⟨part, hpart, hdecode⟩ := Json.Slots.exists_of_required happlication
  rw [hslots "application" (show "application" ∈ ["worker", "packages", "application"] by decide)]
    at hpart
  rw [bindingsIn, hpart]
  exact ApplicationDescriptor.bindings_of_decode hdecode

/-- The bindings in a value that can be read are ones that can be read. -/
theorem isRead_bindingsIn {value : Json} (h : Toml.IsRead value) :
    Toml.IsRead (.obj (bindingsIn value)) := by
  have hnone : Toml.IsRead (.obj []) :=
    Toml.isRead_obj.mpr ⟨List.nodup_nil, fun _ hmem => absurd hmem List.not_mem_nil⟩
  rw [bindingsIn]
  cases happlication : (shape .config).part? "application" value with
  | none => exact hnone
  | some application =>
    show Toml.IsRead (.obj (ApplicationDescriptor.bindingsIn application))
    rw [ApplicationDescriptor.bindingsIn]
    cases hbindings : ApplicationDescriptor.shape.part? "bindings" application with
    | none => exact hnone
    | some bindings =>
      cases bindings with
      | obj members => exact (h.part happlication).part hbindings
      | _ => exact hnone

/-- A manifest that was read comes from the value of a text, and keeps the rules. -/
theorem of_ofToml {bytes : Bytes} {m : WorkerManifest} (h : ofToml bytes = .ok m) :
    ∃ text value, Text.ofUtf8 bytes = .ok text ∧ Toml.read text = some value ∧
      m.check = none ∧ m.application.bindings = Json.canonicalTable (bindingsIn value) ∧
      Toml.IsRead (.obj (bindingsIn value)) := by
  rw [ofToml] at h
  split at h
  · cases h
  · rename_i text htext
    split at h
    · cases h
    · rename_i value hread
      split at h
      · cases h
      · rename_i manifest hdecode
        split at h
        · cases h
        · rename_i hcheck
          obtain rfl := Except.ok.inj h
          exact ⟨text, value, htext, hread, hcheck, bindings_of_decode hdecode,
            isRead_bindingsIn (Toml.isRead_of_read hread)⟩

/-! ### The text of a manifest -/

/-- What holds of texts, of truth values, of lists and of objects with different keys holds within
    a manifest exactly if it holds within its bindings. -/
theorem every_toJson_iff {p : Json → Prop} (hstr : ∀ s, p (.str s)) (hbool : ∀ b, p (.bool b))
    (harr : ∀ items, p (.arr items))
    (hobj : ∀ members, (Table.keys members).Nodup → p (.obj members)) {m : WorkerManifest} :
    Json.Every p m.toJson ↔ Json.Every p (.obj m.application.bindings) := by
  obtain ⟨worker, packages, application⟩ := m
  refine ⟨fun h => ?_, fun h => ?_⟩
  · have happlication : Json.Every p application.toJson :=
      (Json.every_obj.mp h).2 ("application", application.toJson) (by simp)
    exact (Json.every_obj.mp happlication).2 ("bindings", .obj application.bindings) (by simp)
  · have htext : ∀ s, Json.Every p (.str s) := fun s =>
      (Json.every_leaf (fun _ => Json.noConfusion) fun _ => Json.noConfusion).mpr (hstr s)
    have htruth : ∀ b, Json.Every p (.bool b) := fun b =>
      (Json.every_leaf (fun _ => Json.noConfusion) fun _ => Json.noConfusion).mpr (hbool b)
    have hlist : ∀ {items : List Json}, (∀ item ∈ items, Json.Every p item) →
        Json.Every p (.arr items) := fun hitems => Json.every_arr.mpr ⟨harr _, hitems⟩
    have hobject : ∀ {members : List (String × Json)}, (Table.keys members).Nodup →
        (∀ member ∈ members, Json.Every p member.2) → Json.Every p (.obj members) :=
      fun hkeys hmembers => Json.every_obj.mpr ⟨hobj _ hkeys, hmembers⟩
    -- The parts of a manifest have fixed keys, which are all different.
    have hworker : Json.Every p worker.toJson :=
      hobject (show ["name", "runtime"].Nodup by decide) (List.forall_mem_cons.mpr
        ⟨htext _, List.forall_mem_singleton.mpr (htext _)⟩)
    have hpackage : ∀ package : PackageSpec, Json.Every p package.toJson := by
      intro package
      obtain ⟨locator, hash⟩ := package
      cases hash with
      | none =>
        exact hobject (show ["locator"].Nodup by decide) (List.forall_mem_singleton.mpr (htext _))
      | some hash =>
        exact hobject (show ["locator", "hash"].Nodup by decide) (List.forall_mem_cons.mpr
          ⟨htext _, List.forall_mem_singleton.mpr (htext _)⟩)
    have hpackages : Json.Every p (.arr (packages.map PackageSpec.toJson)) :=
      hlist (List.forall_mem_map.mpr fun package _ => hpackage package)
    have hrequires : Json.Every p (.arr (application.requires.map .str)) :=
      hlist (List.forall_mem_map.mpr fun s _ => htext s)
    have happlication : Json.Every p application.toJson :=
      hobject (show ["entry", "requires", "location", "bindings"].Nodup by decide)
        (List.forall_mem_cons.mpr ⟨htext _, List.forall_mem_cons.mpr ⟨hrequires,
          List.forall_mem_cons.mpr ⟨htruth _, List.forall_mem_singleton.mpr h⟩⟩⟩)
    exact hobject (show ["worker", "packages", "application"].Nodup by decide)
      (List.forall_mem_cons.mpr ⟨hworker, List.forall_mem_cons.mpr
        ⟨hpackages, List.forall_mem_singleton.mpr happlication⟩⟩)

section Written

variable {m : WorkerManifest} {members : List (String × Json)}
  (hbindings : m.application.bindings = Json.canonicalTable members)
  (hread : Toml.IsRead (.obj members))

include hbindings hread

/-- The integers of a manifest have 64 bits with a sign, if its bindings come from a text. -/
theorem isSigned_toJson : Toml.IsSigned m.toJson := by
  refine (every_toJson_iff (fun _ => trivial) (fun _ => trivial) (fun _ => trivial)
    fun _ _ => trivial).mpr ?_
  have hcanonical := hread.isSigned_canonical
  rwa [Json.canonical, ← Json.canonicalTable, ← hbindings] at hcanonical

/-- All of a manifest can be written exactly if the numbers of its bindings are finite in the
    text that they come from. -/
theorem firstFault_eq_none_iff :
    Toml.firstFault m.toJson = none ↔ (Json.obj members).IsFinite := by
  have hcanonical : Json.obj m.application.bindings = (Json.obj members).canonical := by
    rw [hbindings, Json.canonical]
    rfl
  rw [Toml.firstFault_eq_none_iff (isSigned_toJson hbindings hread),
    every_toJson_iff (fun _ => Json.noConfusion) (fun _ => Json.noConfusion)
      (fun _ => Json.noConfusion) fun _ _ => Json.noConfusion, hcanonical]
  exact hread.every_ne_null_canonical_iff

/-- A manifest is not written if a number of its bindings was not finite. -/
theorem toToml_of_not_isFinite (h : ¬(Json.obj members).IsFinite) : m.toToml = .error .null := by
  rw [← firstFault_eq_none_iff hbindings hread] at h
  obtain ⟨fault, hfault⟩ := Option.ne_none_iff_exists'.mp h
  rw [toToml, Toml.write, hfault,
    Toml.eq_null_of_firstFault (isSigned_toJson hbindings hread) hfault]

/-- A manifest that keeps the rules is written if all numbers of its bindings are finite, and its
    text is read back, if it fits. -/
theorem exists_toToml (hcheck : m.check = none) (h : (Json.obj members).IsFinite) :
    ∃ text, m.toToml = .ok text
      ∧ ofToml (Text.utf8 text) = if Toml.Fits m.toJson then .ok m else .error .malformed := by
  have hfault := (firstFault_eq_none_iff hbindings hread).mpr h
  refine ⟨_, by rw [toToml, Toml.write, hfault], ?_⟩
  have hwritten : Toml.IsWritable (.obj m.application.bindings) := by
    have hcanonical := hread.isWritable_canonical h
    rwa [Json.canonical, ← Json.canonicalTable, ← hbindings] at hcanonical
  have hsame : Json.canonicalTable (found m.application.bindings) = m.application.bindings := by
    rw [Toml.canonicalTable_found hwritten, hbindings,
      Json.canonicalTable_eq_self (Json.isCanonicalTable_canonicalTable members)]
  -- Only the bindings could hold something that is not written.
  have hwritable : Toml.IsWritable m.toJson := (every_toJson_iff (fun _ => trivial)
    (fun _ => trivial) (fun _ => trivial) (fun _ hkeys => hkeys)).mpr hwritten
  have hback : Toml.read (String.ofList (Toml.joinBlocks (Toml.blocks [] false m.toJson)))
      = if Toml.Fits m.toJson then some (.obj m.foundMembers) else none := by
    rw [← found_members]
    exact Toml.read_joinBlocks hwritable
  rw [ofToml, Text.ofUtf8_utf8]
  dsimp only
  rw [hback]
  by_cases hfits : Toml.Fits m.toJson
  · rw [if_pos hfits, if_pos hfits]
    dsimp only
    rw [decode_foundMembers hsame]
    dsimp only
    rw [hcheck]
  · rw [if_neg hfits, if_neg hfits]

end Written

/-- **A manifest that was read is written and read back.** Its bindings are those of the text in
    canonical form, where a null stands for every number that is not finite.  If there is such a
    number, then the manifest is not written, for no text can hold a null.  If there is none, it is
    written, and its text is read as the same manifest, unless it is nested deeper than the reader
    goes. -/
theorem ofToml_toToml {bytes : Bytes} {m : WorkerManifest} (h : ofToml bytes = .ok m) :
    ∃ text value, Text.ofUtf8 bytes = .ok text ∧ Toml.read text = some value ∧
      m.application.bindings = Json.canonicalTable (bindingsIn value) ∧
      (∀ way x, (Json.obj (bindingsIn value)).at? way = some (.float x) → x.isFinite = false →
        (Json.obj m.application.bindings).at? way = some .null) ∧
      (¬(Json.obj (bindingsIn value)).IsFinite → m.toToml = .error .null ∧
        Toml.WriteFault.null.explain = some "unsupported unit type") ∧
      ((Json.obj (bindingsIn value)).IsFinite → ∃ written, m.toToml = .ok written ∧
        ofToml (Text.utf8 written) = if Toml.Fits m.toJson then .ok m else .error .malformed) := by
  obtain ⟨text, value, htext, hvalue, hcheck, hbindings, hread⟩ := of_ofToml h
  refine ⟨text, value, htext, hvalue, hbindings, fun way x hway hx => ?_, fun hinfinite =>
    ⟨toToml_of_not_isFinite hbindings hread hinfinite, rfl⟩, exists_toToml hbindings hread hcheck⟩
  have hcanonical := Json.at?_canonical (hread.imp fun _ => Toml.IsReadAlone.hasDistinctKeys) way
  rw [hway, Json.canonical, ← Json.canonicalTable, ← hbindings] at hcanonical
  rw [hcanonical, Option.map_some, Json.canonical, if_neg (by simp [hx])]

/-- A configuration text with a package, a requirement and bindings of all kinds. -/
def mixedText : String :=
  "[worker]\nname = 'w'\n[[packages]]\nlocator = 'p==1'\n"
    ++ "[application]\nentry = 'e'\nrequires = ['p']\n[application.bindings]\n"
    ++ "n = -1\nx = [2.5, \x7bd = 07:32:00\x7d]\nt.u = true\n"

/-- It is written and read back. -/
theorem ofToml_toToml_mixed :
    ∃ m value, ofToml (Text.utf8 mixedText) = .ok m ∧ Toml.read mixedText = some value ∧
      (Json.obj (bindingsIn value)).IsFinite ∧ Toml.Fits m.toJson ∧
      m.application.bindings = Json.canonicalTable (bindingsIn value) ∧
      ∃ written, m.toToml = .ok written ∧ ofToml (Text.utf8 written) = .ok m := by
  have htest : (ofToml (Text.utf8 mixedText)).toOption.any (fun m =>
      decide (Toml.Fits m.toJson ∧ Toml.firstFault m.toJson = none)) = true := by
    rw [ofToml, Text.ofUtf8_utf8]
    decide +kernel
  obtain ⟨m, hm, htest⟩ := exists_of_any htest
  obtain ⟨hfits, hfault⟩ := of_decide_eq_true htest
  obtain ⟨text, value, htext, hvalue, hbindings, -, hnot, hwritten⟩ := ofToml_toToml hm
  obtain rfl : mixedText = text := Except.ok.inj ((Text.ofUtf8_utf8 mixedText).symm.trans htext)
  -- What has no fault is written, so its numbers are finite.
  have hfinite : (Json.obj (bindingsIn value)).IsFinite := by
    by_contra hinfinite
    have hnull := (hnot hinfinite).1
    rw [toToml, Toml.write, hfault] at hnull
    cases hnull
  obtain ⟨written, hwrite, hback⟩ := hwritten hfinite
  rw [if_pos hfits] at hback
  exact ⟨m, value, hm, hvalue, hfinite, hfits, hbindings, written, hwrite, hback⟩

/-- A configuration text with a number that is not finite. -/
def nanText : String :=
  "[worker]\nname = 'w'\n[application]\nentry = 'e'\nbindings = \x7bx = nan\x7d\n"

/-- A configuration text with a key of 79 parts below a header of two keys. -/
def deepText : String :=
  "[worker]\nname = 'w'\n[application]\nentry = 'e'\n[application.bindings]\n"
    ++ String.ofList (Toml.renderPath (List.replicate Toml.depthLimit "k")) ++ " = 1\n"

/-- **Not every manifest that was read survives**: a number that is not finite is kept as a null
    and cannot be written, and the header of a deep table is written but not read. -/
theorem toToml_nan_ofToml_deep :
    (∃ m, ofToml (Text.utf8 nanText) = .ok m ∧ m.toToml = .error .null)
      ∧ ∃ m text, ofToml (Text.utf8 deepText) = .ok m ∧ m.toToml = .ok text
        ∧ ofToml (Text.utf8 text) = .error .malformed := by
  constructor
  · have hread : (ofToml (Text.utf8 nanText)).toOption.any
        (fun m => decide (m.toToml = .error .null)) = true := by
      rw [ofToml, Text.ofUtf8_utf8]
      decide +kernel
    obtain ⟨m, hm, htest⟩ := exists_of_any hread
    exact ⟨m, hm, of_decide_eq_true htest⟩
  · have htest : (ofToml (Text.utf8 deepText)).toOption.any (fun m =>
        decide (¬Toml.Fits m.toJson ∧ Toml.firstFault m.toJson = none)) = true := by
      rw [ofToml, Text.ofUtf8_utf8]
      decide +kernel
    obtain ⟨m, hm, htest⟩ := exists_of_any htest
    obtain ⟨hdeep, hfault⟩ := of_decide_eq_true htest
    -- It has no fault, so it is written, but its text does not fit.
    obtain ⟨text, value, htext, hvalue, hcheck, hbindings, hread⟩ := of_ofToml hm
    obtain ⟨written, hwrite, hback⟩ := exists_toToml hbindings hread hcheck
      ((firstFault_eq_none_iff hbindings hread).mp hfault)
    rw [if_neg hdeep] at hback
    exact ⟨m, written, hm, hwrite, hback⟩

end WorkerManifest

end DocRelay
