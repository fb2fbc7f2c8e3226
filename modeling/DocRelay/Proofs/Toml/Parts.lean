import DocRelay.Proofs.Toml.Values

namespace DocRelay.Toml

/-!
# The parts of a written object

An object is written as its plain members and a header for each table in it, with the plain
members of that table below.  A table that has nothing but tables in it needs no header.

* `members_induction` — the members of an object are plain, tables or arrays of tables;
* `Part`, `parts` — the headers of the tables in an object; `parts_table`, `parts_tables`;
* `innerBlocks_eq`, `blocks_eq` — an object is written as these.
-/

/-! ### Members of an object -/

/-- A member that is neither a table nor an array of tables. -/
def IsPlain (j : Json) : Prop :=
  isTable j = false ∧ isTables j = false

/-- The elements of an array of tables. -/
theorem exists_of_isTables {items : List Json} (h : isTables (.arr items) = true) :
    ∃ elements : List (List (String × Json)), elements ≠ [] ∧ items = elements.map .obj := by
  rw [isTables, Bool.and_eq_true, List.all_eq_true, Bool.not_eq_true',
    List.isEmpty_eq_false_iff] at h
  obtain ⟨hne, hall⟩ := h
  have hitems : ∀ items : List Json, (∀ item ∈ items, isTable item = true) →
      items = (items.filterMap Json.members?).map .obj := by
    intro items
    induction items with
    | nil => exact fun _ => rfl
    | cons item others ih =>
      intro hall
      obtain ⟨members, rfl⟩ : ∃ members, item = .obj members := by
        have htable := hall item List.mem_cons_self
        cases item with
        | obj members => exact ⟨members, rfl⟩
        | _ => cases htable
      exact congrArg (Json.obj members :: ·)
        (ih fun other hother => hall other (List.mem_cons_of_mem _ hother))
  refine ⟨items.filterMap Json.members?, fun he => hne ?_, hitems items hall⟩
  rw [hitems items hall, he]
  rfl

/-- Some tables are an array of tables. -/
theorem isTables_map_obj {elements : List (List (String × Json))} (h : elements ≠ []) :
    isTables (.arr (elements.map .obj)) = true := by
  obtain ⟨first, others, rfl⟩ := List.exists_cons_of_ne_nil h
  rw [isTables, List.all_map, Bool.and_eq_true]
  exact ⟨rfl, List.all_eq_true.mpr fun members _ => rfl⟩

/-- **The members of an object are plain, tables or arrays of tables.** -/
theorem members_induction {motive : List (String × Json) → Prop} (nil : motive [])
    (plain : ∀ key j rest, IsPlain j → motive rest → motive ((key, j) :: rest))
    (table : ∀ key members rest, motive members → motive rest →
      motive ((key, .obj members) :: rest))
    (tables : ∀ key (elements : List (List (String × Json))) rest, elements ≠ [] →
      (∀ members ∈ elements, motive members) → motive rest →
      motive ((key, .arr (elements.map .obj)) :: rest)) (members : List (String × Json)) :
    motive members := by
  have hsized : ∀ (size : Nat) (members : List (String × Json)), sizeOf members ≤ size →
      motive members := by
    intro size
    induction size with
    | zero =>
      intro members hsize
      cases members with
      | nil => exact nil
      | cons member rest => simp only [List.cons.sizeOf_spec] at hsize; omega
    | succ size ih =>
      intro members hsize
      match members with
      | [] => exact nil
      | (key, j) :: rest =>
        simp only [List.cons.sizeOf_spec, Prod.mk.sizeOf_spec] at hsize
        have hrest := ih rest (by omega)
        by_cases hplain : IsPlain j
        · exact plain key j rest hplain hrest
        · cases j with
          | obj inner =>
            simp only [Json.obj.sizeOf_spec] at hsize
            exact table key inner rest (ih inner (by omega)) hrest
          | arr items =>
            have hitems : isTables (.arr items) = true := by
              simpa [IsPlain, isTable] using hplain
            obtain ⟨elements, hne, rfl⟩ := exists_of_isTables hitems
            refine tables key elements rest hne (fun inner hinner => ih inner ?_) hrest
            have := List.sizeOf_lt_of_mem (List.mem_map_of_mem (f := Json.obj) hinner)
            simp only [Json.obj.sizeOf_spec, Json.arr.sizeOf_spec] at this hsize
            omega
          | _ => exact absurd ⟨rfl, rfl⟩ hplain
  exact hsized (sizeOf members) members (Nat.le_refl _)

theorem plainMembers_plain {key : String} {j : Json} (h : IsPlain j) (rest : List (String × Json)) :
    plainMembers ((key, j) :: rest) = (key, j) :: plainMembers rest := by
  rw [plainMembers, List.filter_cons_of_pos (by simp [h.1, h.2]), ← plainMembers]

theorem plainMembers_table (key : String) (members rest : List (String × Json)) :
    plainMembers ((key, .obj members) :: rest) = plainMembers rest := by
  rw [plainMembers, List.filter_cons_of_neg (by simp [isTable]), ← plainMembers]

theorem plainMembers_tables (key : String) {elements : List (List (String × Json))}
    (h : elements ≠ []) (rest : List (String × Json)) :
    plainMembers ((key, .arr (elements.map .obj)) :: rest) = plainMembers rest := by
  rw [plainMembers, List.filter_cons_of_neg (by simp [isTables_map_obj h]), ← plainMembers]

/-! ### Headers -/

/-- A header with the plain members below it. -/
structure Part where
  /-- It is that of an element of an array of tables. -/
  element : Bool
  /-- The keys that lead to its table. -/
  path : List String
  key : String
  body : List (String × Json)

namespace Part

/-- The same header in a text in which a path leads to the object. -/
def behind (path : List String) (p : Part) : Part :=
  { p with path := path ++ p.path }

/-- The line of the header. -/
def line (p : Part) : List Char :=
  if p.element then "[[".toList ++ renderPath (p.path ++ [p.key]) ++ "]]\n".toList
  else '[' :: renderPath (p.path ++ [p.key]) ++ "]\n".toList

/-- The header with its members, as it is written. -/
def text (p : Part) : List Char :=
  p.line ++ p.body.flatMap memberLine

/-- The header with its members, as it is read. -/
def opening (p : Part) : Section :=
  ⟨if p.element then .element p.path p.key else .table p.path p.key, p.body.map assignment⟩

end Part

/-- A table with these members has a header of its own. -/
def hasHeader (members : List (String × Json)) : Bool :=
  !(plainMembers members).isEmpty || members.isEmpty

/-- The header of a table, if it has one; an element of an array has one. -/
def ownParts (key : String) (element : Bool) (members : List (String × Json)) : List Part :=
  if element || hasHeader members then [⟨element, [], key, plainMembers members⟩] else []

mutual

/-- The headers of a table and of the tables in it, in the order in which they are written. -/
def tableParts (key : String) (element : Bool) : Json → List Part
  | .obj members => ownParts key element members ++ (parts members).map (Part.behind [key])
  | _ => []

/-- The headers of the tables among some members. -/
def parts : List (String × Json) → List Part
  | [] => []
  | (key, .obj members) :: rest => tableParts key false (.obj members) ++ parts rest
  | (key, .arr items) :: rest =>
    (if isTables (.arr items) then elementParts key items else []) ++ parts rest
  | _ :: rest => parts rest

/-- The headers of the elements of an array of tables. -/
def elementParts (key : String) : List Json → List Part
  | [] => []
  | item :: rest => tableParts key true item ++ elementParts key rest

end

theorem tableParts_obj (key : String) (element : Bool) (members : List (String × Json)) :
    tableParts key element (.obj members)
      = ownParts key element members ++ (parts members).map (Part.behind [key]) := by
  rw [tableParts]

theorem parts_plain {key : String} {j : Json} (h : IsPlain j) (rest : List (String × Json)) :
    parts ((key, j) :: rest) = parts rest := by
  obtain ⟨htable, htables⟩ := h
  cases j with
  | obj members => cases htable
  | arr items => rw [parts, if_neg (by simp [htables]), List.nil_append]
  | _ => rfl

theorem parts_table (key : String) (members rest : List (String × Json)) :
    parts ((key, .obj members) :: rest) = tableParts key false (.obj members) ++ parts rest := by
  rw [parts]

theorem elementParts_eq (key : String) (items : List Json) :
    elementParts key items = items.flatMap (tableParts key true) := by
  induction items with
  | nil => rfl
  | cons item others ih => rw [elementParts, ih, List.flatMap_cons]

theorem parts_tables (key : String) {elements : List (List (String × Json))} (h : elements ≠ [])
    (rest : List (String × Json)) :
    parts ((key, .arr (elements.map .obj)) :: rest)
      = (elements.map .obj).flatMap (tableParts key true) ++ parts rest := by
  rw [parts, if_pos (isTables_map_obj h), elementParts_eq]

/-! ### What is written -/

theorem ownBlock_eq (path : List String) (key : String) (element : Bool)
    (members : List (String × Json)) :
    ownBlock (path ++ [key]) element members
      = ((ownParts key element members).map (Part.behind path)).map Part.text := by
  have hpath : (path ++ [key]).isEmpty = false := by simp
  unfold ownBlock ownParts hasHeader
  simp only [hpath, Bool.false_eq_true, if_false]
  cases element with
  | true =>
    simp only [Bool.true_or, if_true, List.map_cons, List.map_nil, Part.behind, Part.text,
      Part.line, List.append_nil]
  | false =>
    cases hplain : (plainMembers members).isEmpty <;> cases hnone : members.isEmpty <;>
      simp [Part.behind, Part.text, Part.line]

theorem behind_behind (path : List String) (key : String) (ps : List Part) :
    (ps.map (Part.behind [key])).map (Part.behind path) = ps.map (Part.behind (path ++ [key])) := by
  rw [List.map_map]
  refine List.map_congr_left fun p _ => ?_
  simp only [Function.comp_apply, Part.behind, List.append_assoc]

/-- A table is written as its headers, if the tables in it are. -/
theorem blocks_obj {members : List (String × Json)}
    (h : ∀ path, innerBlocks path members = ((parts members).map (Part.behind path)).map Part.text)
    (path : List String) (key : String) (element : Bool) :
    blocks (path ++ [key]) element (.obj members)
      = ((tableParts key element (.obj members)).map (Part.behind path)).map Part.text := by
  rw [blocks, ownBlock_eq, h, tableParts_obj, List.map_append, List.map_append, behind_behind]

theorem innerBlocks_plain {key : String} {j : Json} (h : IsPlain j) (path : List String)
    (rest : List (String × Json)) :
    innerBlocks path ((key, j) :: rest) = innerBlocks path rest := by
  obtain ⟨htable, htables⟩ := h
  cases j with
  | obj members => cases htable
  | arr items => rw [innerBlocks, if_neg (by simp [htables]), List.nil_append]
  | _ => rfl

/-- **The tables among some members** are written as their headers. -/
theorem innerBlocks_eq (path : List String) (members : List (String × Json)) :
    innerBlocks path members = ((parts members).map (Part.behind path)).map Part.text := by
  induction members using members_induction generalizing path with
  | nil => rfl
  | plain key j rest hplain ih => rw [innerBlocks_plain hplain, parts_plain hplain, ih]
  | table key inner rest ihinner ihrest =>
    rw [innerBlocks, blocks_obj ihinner, ihrest, parts_table, List.map_append, List.map_append]
  | tables key elements rest hne ihelements ihrest =>
    -- The elements of an array of tables are each a header and the parts of the element.
    have helements : elementBlocks (path ++ [key]) (elements.map .obj)
        = (((elements.map .obj).flatMap (tableParts key true)).map (Part.behind path)).map
          Part.text := by
      clear hne
      induction elements with
      | nil => rfl
      | cons first others ih =>
        rw [List.map_cons, elementBlocks, blocks_obj (ihelements first List.mem_cons_self),
          ih fun members hmembers => ihelements members (List.mem_cons_of_mem _ hmembers),
          List.flatMap_cons, List.map_append, List.map_append]
    rw [innerBlocks, if_pos (isTables_map_obj hne), helements, ihrest, parts_tables key hne,
      List.map_append, List.map_append]

/-- **An object is written** as its plain members and the headers of its tables. -/
theorem blocks_eq (members : List (String × Json)) :
    blocks [] false (.obj members)
      = (if (plainMembers members).isEmpty then [] else [(plainMembers members).flatMap memberLine])
        ++ (parts members).map Part.text := by
  have hbehind : (parts members).map (Part.behind []) = parts members :=
    (List.map_congr_left fun p _ => (rfl : Part.behind [] p = id p)).trans (List.map_id _)
  rw [blocks, innerBlocks_eq, hbehind]
  rfl

end DocRelay.Toml
