import DocRelay.Proofs.Toml.Parts

namespace DocRelay.Toml

/-!
# Tables made by headers

The headers of a written object, read one after another, make its tables: the plain members of
each stand in front, its tables behind them in the order in which they were.

* `contents`, `tableNodes` — the tables of an object as they are kept while a text is read;
* `Opens` — a node through which a header leads; `openAll_behind` — headers that lead through one;
* `openAll_parts` — the headers of an object make its tables.
-/

mutual

/-- What is kept for a table: its plain members, then its tables. -/
def contents : Json → Entries
  | .obj members => (plainMembers members).map entry ++ tableNodes members
  | _ => []

/-- The tables among some members. -/
def tableNodes : List (String × Json) → Entries
  | [] => []
  | (key, .obj members) :: rest =>
    (key, .table (if hasHeader members then .header else .implied) (contents (.obj members)))
      :: tableNodes rest
  | (key, .arr items) :: rest =>
    (if isTables (.arr items) then [(key, .tables (elementNodes items))] else []) ++ tableNodes rest
  | _ :: rest => tableNodes rest

/-- The elements of an array of tables. -/
def elementNodes : List Json → List Entries
  | [] => []
  | item :: rest => contents item :: elementNodes rest

end

theorem contents_obj (members : List (String × Json)) :
    contents (.obj members) = (plainMembers members).map entry ++ tableNodes members := by
  rw [contents]

theorem tableNodes_plain {key : String} {j : Json} (h : IsPlain j) (rest : List (String × Json)) :
    tableNodes ((key, j) :: rest) = tableNodes rest := by
  obtain ⟨htable, htables⟩ := h
  cases j with
  | obj members => cases htable
  | arr items => rw [tableNodes, if_neg (by simp [htables]), List.nil_append]
  | _ => rfl

theorem tableNodes_table (key : String) (members rest : List (String × Json)) :
    tableNodes ((key, .obj members) :: rest)
      = (key, .table (if hasHeader members then .header else .implied) (contents (.obj members)))
        :: tableNodes rest := by
  rw [tableNodes]

theorem elementNodes_eq (items : List Json) : elementNodes items = items.map contents := by
  induction items with
  | nil => rfl
  | cons item others ih => rw [elementNodes, ih, List.map_cons]

theorem tableNodes_tables (key : String) {elements : List (List (String × Json))}
    (h : elements ≠ []) (rest : List (String × Json)) :
    tableNodes ((key, .arr (elements.map .obj)) :: rest)
      = (key, .tables ((elements.map .obj).map contents)) :: tableNodes rest := by
  rw [tableNodes, if_pos (isTables_map_obj h), elementNodes_eq]
  rfl

/-! ### One header -/

theorem find?_concat {entries : Entries} {key : String} (h : key ∉ Table.keys entries)
    (node : Node) : find? (entries ++ [(key, node)]) key = some node := by
  have hnone := find?_eq_none_iff.mpr h
  rw [find?] at hnone ⊢
  rw [List.lookup_append, hnone, List.lookup_cons_self]
  rfl

theorem replace_concat {entries : Entries} {key : String} (h : key ∉ Table.keys entries)
    (node other : Node) :
    replace (entries ++ [(key, node)]) key other = entries ++ [(key, other)] := by
  have hsame : entries.map (fun e => if e.1 == key then (key, other) else e) = entries := by
    refine (List.map_congr_left fun e he => ?_).trans (List.map_id _)
    have hne : ¬(e.1 == key) = true := fun heq =>
      h (beq_iff_eq.mp heq ▸ List.mem_map_of_mem he)
    rw [if_neg hne, id]
  rw [replace, List.map_append, hsame, List.map_singleton, if_pos (beq_self_eq_true key)]

/-- How a table came about does not matter to a change that does not ask. -/
theorem update_origin (fresh : Origin) (change : Entries → Option Entries) (path : List String)
    (origin other : Origin) (entries : Entries) :
    update fresh (fun _ => change) path origin entries
      = update fresh (fun _ => change) path other entries := by
  cases path <;> rw [update, update]

/-- A header leads through the node to what is in it, and nothing else changes. -/
def Opens (node : Entries → Node) : Prop :=
  ∀ (change : Entries → Option Entries) (path : List String) {entries : Entries} {key : String},
    key ∉ Table.keys entries → ∀ inner : Entries,
    update .implied (fun _ => change) (key :: path) .header (entries ++ [(key, node inner)])
      = (update .implied (fun _ => change) path .header inner).map fun changed =>
        entries ++ [(key, node changed)]

/-- A header leads through a table. -/
theorem opens_table (origin : Origin) : Opens (.table origin) := by
  intro change path entries key h inner
  rw [update, find?_concat h]
  dsimp only
  rw [if_neg (by simp), update_origin .implied change path origin .header]
  cases update .implied (fun _ => change) path .header inner with
  | none => rfl
  | some changed => exact congrArg some (replace_concat h _ _)

/-- A header leads through the last element of an array of tables. -/
theorem opens_tables (elements : List Entries) :
    Opens fun inner => .tables (elements ++ [inner]) := by
  intro change path entries key h inner
  rw [update, find?_concat h]
  dsimp only
  rw [List.getLast?_concat]
  dsimp only
  cases update .implied (fun _ => change) path .header inner with
  | none => rfl
  | some changed =>
    refine congrArg some ((replace_concat h _ _).trans ?_)
    rw [List.dropLast_concat]

/-- A header that leads through a new key makes a table there. -/
theorem update_absent (change : Entries → Option Entries) (path : List String) {entries : Entries}
    {key : String} (h : key ∉ Table.keys entries) :
    update .implied (fun _ => change) (key :: path) .header entries
      = (update .implied (fun _ => change) path .header []).map fun inner =>
        entries ++ [(key, .table .implied inner)] := by
  rw [update, find?_eq_none_iff.mpr h]
  dsimp only
  rw [update_origin .implied change path .implied .header]
  cases update .implied (fun _ => change) path .header [] <;> rfl

/-- What a header does where its path leads. -/
def Part.change (p : Part) (entries : Entries) : Option Entries :=
  addSection entries (Part.opening { p with path := [] })

theorem addSection_opening (p : Part) (entries : Entries) :
    addSection entries p.opening = update .implied (fun _ => p.change) p.path .header entries := by
  obtain ⟨element, path, key, body⟩ := p
  cases element <;> rfl

/-! ### Headers one after another -/

/-- The entries after some headers. -/
def openAll (ps : List Part) (entries : Entries) : Option Entries :=
  (ps.map Part.opening).foldlM addSection entries

theorem openAll_cons (p : Part) (ps : List Part) (entries : Entries) :
    openAll (p :: ps) entries = (addSection entries p.opening).bind (openAll ps) := by
  rw [openAll, List.map_cons, List.foldlM_cons]
  rfl

theorem openAll_singleton (p : Part) (entries : Entries) :
    openAll [p] entries = addSection entries p.opening := by
  rw [openAll_cons]
  cases addSection entries p.opening <;> rfl

theorem openAll_append (ps qs : List Part) (entries : Entries) :
    openAll (ps ++ qs) entries = (openAll ps entries).bind (openAll qs) := by
  rw [openAll, List.map_append, List.foldlM_append]
  rfl

/-- **Headers that lead through a node** change what is in it as they do without it. -/
theorem openAll_behind {node : Entries → Node} (hnode : Opens node) {entries : Entries}
    {key : String} (h : key ∉ Table.keys entries) (ps : List Part) (inner : Entries) :
    openAll (ps.map (Part.behind [key])) (entries ++ [(key, node inner)])
      = (openAll ps inner).map fun changed => entries ++ [(key, node changed)] := by
  induction ps generalizing inner with
  | nil => rfl
  | cons p others ih =>
    have hfirst : addSection (entries ++ [(key, node inner)]) (p.behind [key]).opening
        = (addSection inner p.opening).map fun changed => entries ++ [(key, node changed)] := by
      rw [addSection_opening, addSection_opening]
      exact hnode p.change p.path h inner
    rw [List.map_cons, openAll_cons, hfirst, openAll_cons]
    cases addSection inner p.opening with
    | none => rfl
    | some changed => exact ih changed

/-- Headers that lead through a new key make a table there. -/
theorem openAll_behind_absent {entries : Entries} {key : String} (h : key ∉ Table.keys entries)
    {ps : List Part} (hne : ps ≠ []) :
    openAll (ps.map (Part.behind [key])) entries
      = (openAll ps []).map fun inner => entries ++ [(key, .table .implied inner)] := by
  obtain ⟨p, others, rfl⟩ := List.exists_cons_of_ne_nil hne
  have hfirst : addSection entries (p.behind [key]).opening
      = (addSection [] p.opening).map fun inner => entries ++ [(key, .table .implied inner)] := by
    rw [addSection_opening, addSection_opening]
    exact update_absent p.change p.path h
  rw [List.map_cons, openAll_cons, hfirst, openAll_cons]
  cases addSection [] p.opening with
  | none => rfl
  | some inner => exact openAll_behind (opens_table .implied) h others inner

/-- A table without a header has tables in it. -/
theorem parts_ne_nil {members : List (String × Json)} (h : hasHeader members = false) :
    parts members ≠ [] := by
  induction members using members_induction with
  | nil => cases h
  | plain key j rest hplain =>
    rw [hasHeader, plainMembers_plain hplain] at h
    cases h
  | table key inner rest ihinner =>
    rw [parts_table, tableParts_obj, ownParts]
    cases hheader : hasHeader inner with
    | true => simp
    | false => simp [ihinner hheader]
  | tables key elements rest hne =>
    obtain ⟨first, others, rfl⟩ := List.exists_cons_of_ne_nil hne
    -- An element has a header of its own, and there is at least one element.
    rw [parts_tables key hne, List.map_cons, List.flatMap_cons, tableParts_obj, ownParts]
    simp

/-! ### The tables of an object -/

theorem keys_append {α : Type} (xs ys : List (String × α)) :
    Table.keys (xs ++ ys) = Table.keys xs ++ Table.keys ys :=
  List.map_append

/-- A table has its keys, the plain ones in front. -/
theorem keys_contents (members : List (String × Json)) :
    (Table.keys (contents (.obj members))).Perm (Table.keys members) := by
  rw [contents_obj, keys_append]
  induction members using members_induction with
  | nil => exact .refl _
  | plain key j rest hplain ih =>
    rw [plainMembers_plain hplain, tableNodes_plain hplain]
    exact ih.cons key
  | table key inner rest _ ih =>
    rw [plainMembers_table, tableNodes]
    exact List.perm_middle.trans (ih.cons key)
  | tables key elements rest hne _ ih =>
    rw [plainMembers_tables key hne, tableNodes_tables key hne]
    exact List.perm_middle.trans (ih.cons key)

/-- The keys of the plain members of a table and of its tables are different. -/
theorem nodup_contents {members : List (String × Json)} (h : (Table.keys members).Nodup) :
    (Table.keys ((plainMembers members).map entry) ++ Table.keys (tableNodes members)).Nodup := by
  rw [← keys_append, ← contents_obj]
  exact (keys_contents members).nodup_iff.mpr h

/-- The plain members of a table are all assigned. -/
theorem assignAll_plainMembers {members : List (String × Json)} (h : (Table.keys members).Nodup) :
    assignAll [] ((plainMembers members).map assignment)
      = some ((plainMembers members).map entry) :=
  assignAll_plain (h.sublist (List.filter_sublist.map _))

/-- A table is made where its key is new. -/
theorem openAll_table {key : String} {members : List (String × Json)}
    (hkeys : (Table.keys members).Nodup)
    (hinner : openAll (parts members) ((plainMembers members).map entry)
      = some (contents (.obj members)))
    {entries : Entries} (hnew : key ∉ Table.keys entries) :
    openAll (tableParts key false (.obj members)) entries
      = some (entries ++ [(key, .table (if hasHeader members then .header else .implied)
          (contents (.obj members)))]) := by
  rw [tableParts_obj, openAll_append, ownParts, Bool.false_or]
  -- A table with a header is made by it; one without is implied by the first header inside.
  cases hheader : hasHeader members with
  | true =>
    have hopen : addSection entries (Part.opening ⟨false, [], key, plainMembers members⟩)
        = some (entries ++ [(key, .table .header ((plainMembers members).map entry))]) := by
      show openTable [] key ((plainMembers members).map assignment) entries = _
      rw [openTable, update, find?_eq_none_iff.mpr hnew]
      dsimp only
      rw [assignAll_plainMembers hkeys]
      rfl
    rw [if_pos rfl, if_pos rfl, openAll_singleton, hopen, Option.bind_some,
      openAll_behind (opens_table .header) hnew, hinner, Option.map_some]
  | false =>
    have hplain : plainMembers members = [] := by
      rw [hasHeader, Bool.or_eq_false_iff, Bool.not_eq_false', List.isEmpty_iff] at hheader
      exact hheader.1
    rw [hplain] at hinner
    show openAll ((parts members).map (Part.behind [key])) entries = _
    rw [openAll_behind_absent hnew (parts_ne_nil hheader), ← List.map_nil (f := entry), hinner]
    rfl

/-- One more element of an array of tables is made. -/
theorem openAll_element {key : String} {members : List (String × Json)}
    (hkeys : (Table.keys members).Nodup)
    (hinner : openAll (parts members) ((plainMembers members).map entry)
      = some (contents (.obj members)))
    {entries : Entries} (hnew : key ∉ Table.keys entries) (elements : List Entries) :
    openAll (tableParts key true (.obj members)) (entries ++ [(key, .tables elements)])
      = some (entries ++ [(key, .tables (elements ++ [contents (.obj members)]))]) := by
  have hopen : addSection (entries ++ [(key, .tables elements)])
      (Part.opening ⟨true, [], key, plainMembers members⟩)
      = some (entries ++ [(key, .tables (elements ++ [(plainMembers members).map entry]))]) := by
    show openElement [] key ((plainMembers members).map assignment) _ = _
    rw [openElement, update, assignAll_plainMembers hkeys, find?_concat hnew]
    exact congrArg some (replace_concat hnew _ _)
  rw [tableParts_obj, openAll_append, ownParts, Bool.true_or, if_pos rfl, openAll_singleton, hopen,
    Option.bind_some, openAll_behind (opens_tables elements) hnew, hinner, Option.map_some]

/-- The first element of an array of tables makes the array. -/
theorem openAll_element_absent {key : String} {members : List (String × Json)}
    {entries : Entries} (hnew : key ∉ Table.keys entries) :
    openAll (tableParts key true (.obj members)) entries
      = openAll (tableParts key true (.obj members)) (entries ++ [(key, .tables [])]) := by
  have hopen : addSection entries (Part.opening ⟨true, [], key, plainMembers members⟩)
      = addSection (entries ++ [(key, .tables [])])
        (Part.opening ⟨true, [], key, plainMembers members⟩) := by
    show openElement [] key ((plainMembers members).map assignment) _
      = openElement [] key ((plainMembers members).map assignment) _
    rw [openElement, openElement, update, update, find?_concat hnew, find?_eq_none_iff.mpr hnew]
    cases assignAll [] ((plainMembers members).map assignment) with
    | none => rfl
    | some table => exact congrArg some (replace_concat hnew _ _).symm
  rw [tableParts_obj, openAll_append, openAll_append, ownParts, Bool.true_or, if_pos rfl,
    openAll_singleton, openAll_singleton, hopen]

/-- The elements of an array of tables are made one after another. -/
theorem openAll_elements {key : String} {elements : List (List (String × Json))}
    (hkeys : ∀ members ∈ elements, (Table.keys members).Nodup)
    (hinner : ∀ members ∈ elements, openAll (parts members) ((plainMembers members).map entry)
      = some (contents (.obj members)))
    {entries : Entries} (hnew : key ∉ Table.keys entries) (done : List Entries) :
    openAll ((elements.map .obj).flatMap (tableParts key true)) (entries ++ [(key, .tables done)])
      = some (entries ++ [(key, .tables (done ++ (elements.map .obj).map contents))]) := by
  induction elements generalizing done with
  | nil => rw [List.map_nil, List.map_nil, List.append_nil]; rfl
  | cons first others ih =>
    rw [List.map_cons, List.flatMap_cons, openAll_append,
      openAll_element (hkeys first List.mem_cons_self) (hinner first List.mem_cons_self) hnew,
      Option.bind_some,
      ih (fun members h => hkeys members (List.mem_cons_of_mem _ h))
        (fun members h => hinner members (List.mem_cons_of_mem _ h)),
      List.map_cons, List.append_assoc]
    rfl

/-- **The headers of an object make its tables**, behind the entries that are there. -/
theorem openAll_parts {members : List (String × Json)}
    (h : ∀ member ∈ members, IsWritable member.2) {entries : Entries}
    (hnew : (Table.keys entries ++ Table.keys (tableNodes members)).Nodup) :
    openAll (parts members) entries = some (entries ++ tableNodes members) := by
  induction members using members_induction generalizing entries with
  | nil => exact congrArg some (List.append_nil _).symm
  | plain key j rest hplain ih =>
    rw [tableNodes_plain hplain] at hnew ⊢
    rw [parts_plain hplain]
    exact ih (fun member hmember => h member (List.mem_cons_of_mem _ hmember)) hnew
  | table key inner rest ihinner ihrest =>
    obtain ⟨hkeys, hvalues⟩ := isWritable_obj.mp (h _ List.mem_cons_self)
    rw [tableNodes] at hnew ⊢
    obtain ⟨hkey, hnext⟩ := nodup_concat entries _ (tableNodes rest) hnew
    have hinner := ihinner hvalues (nodup_contents hkeys)
    rw [← contents_obj] at hinner
    rw [parts_table, openAll_append, openAll_table hkeys hinner hkey, Option.bind_some,
      ihrest (fun member hmember => h member (List.mem_cons_of_mem _ hmember)) hnext,
      List.append_assoc]
    rfl
  | tables key elements rest hne ihelements ihrest =>
    have hwritable : ∀ members ∈ elements,
        (Table.keys members).Nodup ∧ ∀ member ∈ members, IsWritable member.2 :=
      fun members hmembers => isWritable_obj.mp
        (isWritable_arr.mp (h _ List.mem_cons_self) _ (List.mem_map_of_mem hmembers))
    have hinner : ∀ members ∈ elements, openAll (parts members) ((plainMembers members).map entry)
        = some (contents (.obj members)) := by
      intro members hmembers
      obtain ⟨hkeys, hvalues⟩ := hwritable members hmembers
      rw [contents_obj]
      exact ihelements members hmembers hvalues (nodup_contents hkeys)
    rw [tableNodes_tables key hne] at hnew ⊢
    obtain ⟨hkey, hnext⟩ := nodup_concat entries _ (tableNodes rest) hnew
    have hall : openAll ((elements.map .obj).flatMap (tableParts key true)) entries
        = some (entries ++ [(key, .tables ((elements.map .obj).map contents))]) := by
      -- The first element makes the array, and the others are added to it.
      have helements := openAll_elements (fun members hm => (hwritable members hm).1) hinner hkey []
      obtain ⟨first, others, rfl⟩ := List.exists_cons_of_ne_nil hne
      rw [List.map_cons, List.flatMap_cons, openAll_append] at helements ⊢
      rw [openAll_element_absent hkey]
      exact helements
    rw [parts_tables key hne, openAll_append, hall, Option.bind_some,
      ihrest (fun member hmember => h member (List.mem_cons_of_mem _ hmember)) hnext,
      List.append_assoc]
    rfl

/-! ### What is found again -/

/-- What is found of an object when it is read: its members, the plain ones in front, and in the
    same way of each object in it that has a header. -/
def found (members : List (String × Json)) : List (String × Json) :=
  entriesToJson (contents (.obj members))

theorem toJson_table (origin : Origin) (members : List (String × Json)) :
    Node.toJson (.table origin (contents (.obj members))) = .obj (found members) := by
  rw [Node.toJson, found]

theorem elementsToJson_contents (elements : List (List (String × Json))) :
    elementsToJson ((elements.map .obj).map contents) = elements.map fun members =>
      .obj (found members) := by
  rw [elementsToJson_eq_map, List.map_map, List.map_map]
  rfl

theorem found_eq (members : List (String × Json)) :
    found members = plainMembers members ++ entriesToJson (tableNodes members) := by
  rw [found, contents_obj, entriesToJson_eq_map, List.map_append, ← entriesToJson_eq_map,
    ← entriesToJson_eq_map, entriesToJson_plain]

/-- Plain members are found as they are. -/
theorem found_plain {members : List (String × Json)} (h : ∀ member ∈ members, IsPlain member.2) :
    found members = members := by
  induction members with
  | nil => rfl
  | cons member rest ih =>
    have hplain := h member List.mem_cons_self
    have hrest := ih fun other hother => h other (List.mem_cons_of_mem _ hother)
    rw [found_eq] at hrest
    rw [found_eq, plainMembers_plain hplain, tableNodes_plain hplain, List.cons_append, hrest]

/-- A table is found behind the plain members, which does not matter to a table of all. -/
theorem perm_behind {key : String} {j other : Json} (h : other.canonical = j.canonical)
    {rest : List (String × Json)}
    (hrest : (Json.canonicalMembers (found rest)).Perm (Json.canonicalMembers rest)) :
    (Json.canonicalMembers
      (plainMembers rest ++ (key, other) :: entriesToJson (tableNodes rest))).Perm
      (Json.canonicalMembers ((key, j) :: rest)) := by
  rw [found_eq, Json.canonicalMembers_eq_map, List.map_append,
    ← Json.canonicalMembers_eq_map, ← Json.canonicalMembers_eq_map] at hrest
  rw [Json.canonicalMembers_eq_map, List.map_append, ← Json.canonicalMembers_eq_map,
    ← Json.canonicalMembers_eq_map, Json.canonicalMembers, Json.canonicalMembers, h]
  exact List.perm_middle.trans (hrest.cons _)

/-- An object in which the members of another are found has the same canonical form. -/
theorem canonical_found {members : List (String × Json)} (h : (Table.keys members).Nodup)
    (hperm : (Json.canonicalMembers (found members)).Perm (Json.canonicalMembers members)) :
    Json.canonical (.obj (found members)) = Json.canonical (.obj members) := by
  have hkeys : (Table.keys (Json.canonicalMembers (found members))).Nodup := by
    rw [← Json.keys_canonicalMembers members] at h
    exact (hperm.map Prod.fst).nodup_iff.mpr h
  rw [Json.canonical, Json.canonical, Table.ofPairs_perm hperm hkeys]

/-- What is found of an object are its members. -/
theorem canonicalMembers_found {members : List (String × Json)}
    (h : ∀ member ∈ members, IsWritable member.2) :
    (Json.canonicalMembers (found members)).Perm (Json.canonicalMembers members) := by
  induction members using members_induction with
  | nil => exact .refl _
  | plain key j rest hplain ih =>
    rw [found_eq, plainMembers_plain hplain, tableNodes_plain hplain, List.cons_append, ← found_eq,
      Json.canonicalMembers, Json.canonicalMembers]
    exact (ih fun member hmember => h member (List.mem_cons_of_mem _ hmember)).cons _
  | table key inner rest ihinner ihrest =>
    obtain ⟨hkeys, hvalues⟩ := isWritable_obj.mp (h _ List.mem_cons_self)
    rw [found_eq, plainMembers_table, tableNodes, entriesToJson, toJson_table]
    exact perm_behind (canonical_found hkeys (ihinner hvalues))
      (ihrest fun member hmember => h member (List.mem_cons_of_mem _ hmember))
  | tables key elements rest hne ihelements ihrest =>
    rw [found_eq, plainMembers_tables key hne, tableNodes_tables key hne, entriesToJson,
      Node.toJson, elementsToJson_contents]
    refine perm_behind ?_
      (ihrest fun member hmember => h member (List.mem_cons_of_mem _ hmember))
    rw [Json.canonical, Json.canonical, Json.canonicalItems_eq_map, Json.canonicalItems_eq_map,
      List.map_map, List.map_map]
    refine congrArg Json.arr (List.map_congr_left fun members hmembers => ?_)
    obtain ⟨hkeys, hvalues⟩ := isWritable_obj.mp
      (isWritable_arr.mp (h _ List.mem_cons_self) _ (List.mem_map_of_mem hmembers))
    exact canonical_found hkeys (ihelements members hmembers hvalues)

/-- **What is found of an object** comes to the same table as the object. -/
theorem canonicalTable_found {members : List (String × Json)} (h : IsWritable (.obj members)) :
    Json.canonicalTable (found members) = Json.canonicalTable members := by
  obtain ⟨hkeys, hvalues⟩ := isWritable_obj.mp h
  have hsame := canonical_found hkeys (canonicalMembers_found hvalues)
  rw [Json.canonical, Json.canonical] at hsame
  exact Json.obj.inj hsame

end DocRelay.Toml
