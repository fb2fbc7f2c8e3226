import DocRelay.Proofs.Toml.Tree

namespace DocRelay.Toml

/-!
# Reading written objects

A written object is read line by line: headers open sections, lines below them are assignments,
and the empty lines between two headers say nothing.  The sections make the tables of the object.
A line that goes deeper than the reader allows is refused, and with it the whole text.

* `readSections_newline`, `readSections_memberLine`, `readSections_line` — one line;
* `ListsIf` — what lines are read as if they fit; `listsIf_part`, `listsIf_joinBlocks`;
* `Fits` — no header is longer and no value nested deeper than the reader allows;
* `read_joinBlocks` — a written object that fits is read back, as what is found of it, and another
  one is refused;
* `firstFault_eq_none_iff`, `eq_null_of_firstFault` — nothing but a null is refused.
-/

/-! ### One line -/

theorem skipLineEnd_newline (rest : List Char) : skipLineEnd ('\n' :: rest) = some rest := rfl

/-- An empty line says nothing. -/
theorem readSections_newline (fuel : Nat) (rest : List Char) :
    readSections (fuel + 1) ('\n' :: rest) = readSections fuel rest := rfl

/-- A plain member is read as an assignment, if it is not nested too deep. -/
theorem readSections_memberLine {member : String × Json} (hmember : IsWritable member.2)
    (fuel : Nat) (rest : List Char) :
    readSections (fuel + 1) (memberLine member ++ rest)
      = if levels member.2 ≤ depthLimit then
          (readSections fuel rest).map fun lines => (assignment member :: lines.1, lines.2)
        else none := by
  obtain ⟨key, j⟩ := member
  have hline : memberLine (key, j) ++ rest
      = quoteKey key ++ (" = ".toList ++ (renderValue j ++ '\n' :: rest)) := by
    rw [memberLine]
    simp only [List.append_assoc, List.cons_append, List.nil_append]
  have hvalue : ReadsWithin (readValue depthLimit) depthLimit j :=
    ⟨begins_renderValue hmember, fun hstop => readValue_renderValue hmember hstop⟩
  have hread := @readAssignment_member _ depthLimit key j hvalue []
    (fun b hb => absurd hb List.not_mem_nil) ('\n' :: rest) (stops_cons (by decide) rest)
  rw [List.nil_append] at hread
  obtain ⟨c, more, hkey, hc⟩ := exists_quoteKey_eq_cons key
  obtain ⟨hspace, -, hbracket, hhash, hnewline, hreturn, -⟩ := of_keyStart hc
  rw [hline]
  rw [hkey, List.cons_append] at hread ⊢
  rw [readSections, skipSpaces_cons hspace]
  split
  · rename_i he
    cases he
  · rename_i he
    exact absurd (List.cons.inj he).1 hhash
  · rename_i he
    exact absurd (List.cons.inj he).1 hbracket
  · rw [newline?_cons hnewline hreturn]
    dsimp only
    rw [hread, Option.bind_eq_bind, bind_guarded]
    refine if_congr Iff.rfl ?_ rfl
    cases hrest : readSections fuel rest <;>
    · simp only [Option.bind_eq_bind, skipLineEnd_newline, Option.bind_some, hrest]
      rfl

/-- A written header is read up to the end of its line, if its path is not too long. -/
theorem exists_readHeading (p : Part) (rest : List Char) :
    ∃ after, p.line ++ rest = '[' :: after
      ∧ readHeading ('[' :: after)
        = if p.path.length < depthLimit then some (p.opening.heading, '\n' :: rest) else none := by
  obtain ⟨element, path, key, body⟩ := p
  have hopen : "[[".toList = ['[', '['] := by decide
  have hclose : "]]\n".toList = [']', ']', '\n'] := by decide
  have hend : "]\n".toList = [']', '\n'] := by decide
  have hread : ∀ after : List Char, readKey (renderPath (path ++ [key]) ++ ']' :: after)
      = if path.length < depthLimit then some ((path, key), ']' :: after) else none :=
    fun after => @readKey_renderPath path key ']' ']' after after (by decide)
      (skipSpaces_cons (by decide) after) (by decide) [] fun b hb => absurd hb List.not_mem_nil
  cases element with
  | true =>
    refine ⟨'[' :: (renderPath (path ++ [key]) ++ ']' :: ']' :: '\n' :: rest), ?_, ?_⟩
    · simp only [Part.line, if_true, hopen, hclose, List.append_assoc, List.cons_append,
        List.nil_append]
    · rw [readHeading, hread]
      exact bind_guarded _ _ _
  | false =>
    refine ⟨renderPath (path ++ [key]) ++ ']' :: '\n' :: rest, ?_, ?_⟩
    · simp only [Part.line, Bool.false_eq_true, if_false, hend, List.append_assoc,
        List.cons_append, List.nil_append]
    · -- A single bracket is not taken for the first of two, since no key begins with a bracket.
      obtain ⟨c, more, hfirst, hc⟩ := @exists_renderPath_eq_cons (path ++ [key]) (by simp)
      rw [readHeading, hread]
      · exact bind_guarded _ _ _
      · intro after he
        rw [hfirst] at he
        exact (of_keyStart hc).2.2.1 (List.cons.inj he).1

/-- A written header opens a section with the assignments below it, if its path is not too
    long. -/
theorem readSections_line (p : Part) (fuel : Nat) (rest : List Char) :
    readSections (fuel + 1) (p.line ++ rest)
      = if p.path.length < depthLimit then
          (readSections fuel rest).map fun lines => ([], ⟨p.opening.heading, lines.1⟩ :: lines.2)
        else none := by
  obtain ⟨after, htext, hheading⟩ := exists_readHeading p rest
  rw [htext, readSections, skipSpaces_cons (by decide)]
  split
  · rename_i he
    cases he
  · rename_i he
    exact absurd (List.cons.inj he).1 (by decide)
  · rename_i tail he
    obtain rfl := (List.cons.inj he).2
    rw [hheading, Option.bind_eq_bind, bind_guarded]
    refine if_congr Iff.rfl ?_ rfl
    cases hrest : readSections fuel rest <;>
    · simp only [Option.bind_eq_bind, skipLineEnd_newline, Option.bind_some, hrest]
      rfl
  · rename_i hbracket
    exact absurd rfl (hbracket after)

/-! ### All lines -/

/-- The lines are read as the rest of a body and as the sections behind it, if they fit; if they do
    not, they are refused. -/
structure ListsIf (fits : Prop) (cs : List Char) (body : List Assignment)
    (others : List Section) : Prop where
  listed : fits → ∀ {fuel : Nat}, cs.length < fuel → readSections fuel cs = some (body, others)
  refused : ¬fits → ∀ fuel, readSections fuel cs = none

theorem listsIf_nil : ListsIf True [] [] [] where
  listed := by
    intro _ fuel hfuel
    obtain ⟨fuel, rfl⟩ := Nat.exists_eq_succ_of_ne_zero (Nat.ne_zero_of_lt hfuel)
    rfl
  refused := fun h => absurd trivial h

section Lines

variable {fits : Prop} {rest : List Char} {body : List Assignment} {others : List Section}

theorem ListsIf.congr {fits' : Prop} {cs : List Char} (h : ListsIf fits cs body others)
    (heq : fits ↔ fits') : ListsIf fits' cs body others :=
  ⟨fun hfits => h.listed (heq.mpr hfits), fun hnot => h.refused fun hfits => hnot (heq.mp hfits)⟩

/-- A line in front of others: what is read of all is made of what is read of these, if the line
    fits. -/
theorem ListsIf.step {line : List Char} (hne : line ≠ []) (h : ListsIf fits rest body others)
    {now : Prop} [Decidable now]
    {add : List Assignment × List Section → List Assignment × List Section}
    (hline : ∀ fuel, readSections (fuel + 1) (line ++ rest)
      = if now then (readSections fuel rest).map add else none) :
    ListsIf (now ∧ fits) (line ++ rest) (add (body, others)).1 (add (body, others)).2 where
  listed := by
    rintro ⟨hnow, hfits⟩ fuel hfuel
    obtain ⟨fuel, rfl⟩ := Nat.exists_eq_succ_of_ne_zero (Nat.ne_zero_of_lt hfuel)
    have hshort : rest.length < fuel := by
      have := List.length_pos_of_ne_nil hne
      rw [List.length_append] at hfuel
      omega
    rw [hline, if_pos hnow, h.listed hfits hshort]
    rfl
  refused := by
    intro hnot fuel
    cases fuel with
    | zero => rfl
    | succ fuel =>
      rw [hline]
      by_cases hnow : now
      · rw [if_pos hnow, h.refused fun hfits => hnot ⟨hnow, hfits⟩]
        rfl
      · rw [if_neg hnow]

theorem listsIf_newline (h : ListsIf fits rest body others) :
    ListsIf fits ('\n' :: rest) body others := by
  have hline : ∀ fuel, readSections (fuel + 1) (['\n'] ++ rest)
      = if True then (readSections fuel rest).map id else none := by
    intro fuel
    rw [if_pos trivial, Option.map_id, id, List.singleton_append, readSections_newline]
  exact (h.step (List.cons_ne_nil _ _) hline).congr (iff_of_eq (true_and fits))

/-- Plain members are read as assignments, line by line. -/
theorem listsIf_memberLines {members : List (String × Json)}
    (hmembers : ∀ member ∈ members, IsWritable member.2) (h : ListsIf fits rest body others) :
    ListsIf ((∀ member ∈ members, levels member.2 ≤ depthLimit) ∧ fits)
      (members.flatMap memberLine ++ rest) (members.map assignment ++ body) others := by
  induction members with
  | nil =>
    exact h.congr ⟨fun hfits => ⟨fun m hm => absurd hm List.not_mem_nil, hfits⟩, And.right⟩
  | cons member more ih =>
    have hmore := ih fun m hm => hmembers m (List.mem_cons_of_mem _ hm)
    have hne : memberLine member ≠ [] := by
      rw [memberLine]
      exact fun he => List.cons_ne_nil _ _ (List.append_eq_nil_iff.mp he).2
    rw [List.flatMap_cons, List.append_assoc, List.map_cons, List.cons_append,
      List.forall_mem_cons, and_assoc]
    exact hmore.step hne fun fuel =>
      readSections_memberLine (hmembers member List.mem_cons_self) fuel _

/-- No key of the header, and no value below it, goes deeper than the reader allows. -/
def Part.Fits (p : Part) : Prop :=
  p.path.length < depthLimit ∧ ∀ member ∈ p.body, levels member.2 ≤ depthLimit

/-- **A part is read as a section**, whatever is read behind it. -/
theorem listsIf_part {p : Part} (hbody : ∀ member ∈ p.body, IsWritable member.2)
    (h : ListsIf fits rest [] others) :
    ListsIf (p.Fits ∧ fits) (p.text ++ rest) [] (p.opening :: others) := by
  have hlines := listsIf_memberLines hbody h
  have hne : p.line ≠ [] := by
    obtain ⟨after, htext, -⟩ := exists_readHeading p []
    rw [List.append_nil] at htext
    rw [htext]
    exact List.cons_ne_nil _ _
  rw [List.append_nil] at hlines
  rw [Part.text, List.append_assoc, Part.Fits, and_assoc]
  exact hlines.step hne fun fuel => readSections_line p fuel _

end Lines

/-- Blocks have an empty line between each two. -/
theorem joinBlocks_cons (block : List Char) {blocks : List (List Char)} (hne : blocks ≠ []) :
    joinBlocks (block :: blocks) = block ++ '\n' :: joinBlocks blocks := by
  rw [joinBlocks]
  exact hne

/-- Parts are read as sections, one after another. -/
theorem listsIf_joinBlocks {ps : List Part} (h : ∀ p ∈ ps, ∀ member ∈ p.body, IsWritable member.2) :
    ListsIf (∀ p ∈ ps, p.Fits) (joinBlocks (ps.map Part.text)) [] (ps.map Part.opening) := by
  induction ps with
  | nil => exact listsIf_nil.congr ⟨fun _ p hp => absurd hp List.not_mem_nil, fun _ => trivial⟩
  | cons p others ih =>
    have hbody := h p List.mem_cons_self
    have hothers := ih fun q hq => h q (List.mem_cons_of_mem _ hq)
    rw [List.forall_mem_cons]
    cases others with
    | nil =>
      rw [List.map_singleton, joinBlocks, ← List.append_nil p.text]
      exact listsIf_part hbody hothers
    | cons next more =>
      rw [List.map_cons, joinBlocks_cons _ (by simp)]
      exact listsIf_part hbody (listsIf_newline hothers)

/-- **A written object** is read as its plain members and the sections of its tables. -/
theorem listsIf_blocks {members : List (String × Json)}
    (hplain : ∀ member ∈ plainMembers members, IsWritable member.2)
    (hparts : ∀ p ∈ parts members, ∀ member ∈ p.body, IsWritable member.2) :
    ListsIf ((∀ member ∈ plainMembers members, levels member.2 ≤ depthLimit)
        ∧ ∀ p ∈ parts members, p.Fits)
      (joinBlocks (blocks [] false (.obj members)))
      ((plainMembers members).map assignment) ((parts members).map Part.opening) := by
  have htables := listsIf_joinBlocks hparts
  rw [blocks_eq]
  -- The plain members are a block of their own, if there are any, with an empty line behind it.
  cases hnone : (plainMembers members).isEmpty with
  | true =>
    rw [List.isEmpty_iff.mp hnone]
    exact htables.congr
      ⟨fun hfits => ⟨fun member hm => absurd hm List.not_mem_nil, hfits⟩, And.right⟩
  | false =>
    rw [if_neg Bool.false_ne_true, List.singleton_append, ← List.append_nil (List.map assignment _)]
    cases hps : parts members with
    | nil =>
      rw [hps] at htables
      rw [List.map_nil, joinBlocks, ← List.append_nil (List.flatMap _ _)]
      exact listsIf_memberLines hplain htables
    | cons p others =>
      rw [hps] at htables
      rw [List.map_cons, joinBlocks_cons _ (by simp)]
      exact listsIf_memberLines hplain (listsIf_newline htables)

/-! ### What fits -/

/-- No header of the object has more keys, and no value within a line is nested deeper, than the
    reader goes. -/
def Fits : Json → Prop
  | .obj members =>
    (∀ member ∈ plainMembers members, levels member.2 ≤ depthLimit)
      ∧ ∀ p ∈ parts members, p.Fits
  | _ => True

instance : DecidablePred Part.Fits := fun _ =>
  inferInstanceAs (Decidable (_ ∧ _))

instance : DecidablePred Fits := fun j =>
  match j with
  | .obj _ => inferInstanceAs (Decidable (_ ∧ _))
  | .null | .bool _ | .int _ | .float _ | .str _ | .arr _ => inferInstanceAs (Decidable True)

/-- What stands below the headers of an object stands in the object. -/
theorem isWritable_of_mem_parts {members : List (String × Json)}
    (h : ∀ member ∈ members, IsWritable member.2) :
    ∀ p ∈ parts members, ∀ member ∈ p.body, IsWritable member.2 := by
  -- A table has its own header, and those of the tables in it, which are only longer here.
  have htable : ∀ {key : String} {element : Bool} {inner : List (String × Json)},
      (∀ member ∈ inner, IsWritable member.2) →
      (∀ p ∈ parts inner, ∀ member ∈ p.body, IsWritable member.2) →
      ∀ p ∈ tableParts key element (.obj inner), ∀ member ∈ p.body, IsWritable member.2 := by
    intro key element inner hinner hparts p hp
    rw [tableParts_obj, List.mem_append] at hp
    rcases hp with hp | hp
    · rw [ownParts] at hp
      split at hp
      · rw [List.mem_singleton.mp hp]
        exact fun member hmember => hinner member (List.mem_of_mem_filter hmember)
      · cases hp
    · obtain ⟨q, hq, rfl⟩ := List.mem_map.mp hp
      exact hparts q hq
  induction members using members_induction with
  | nil => exact fun p hp => absurd hp List.not_mem_nil
  | plain key j rest hplain ih =>
    rw [parts_plain hplain]
    exact ih fun member hmember => h member (List.mem_cons_of_mem _ hmember)
  | table key inner rest ihinner ihrest =>
    rw [parts_table]
    intro p hp
    rcases List.mem_append.mp hp with hp | hp
    · have hvalues := (isWritable_obj.mp (h _ List.mem_cons_self)).2
      exact htable hvalues (ihinner hvalues) p hp
    · exact ihrest (fun member hmember => h member (List.mem_cons_of_mem _ hmember)) p hp
  | tables key elements rest hne ihelements ihrest =>
    rw [parts_tables key hne]
    intro p hp
    rcases List.mem_append.mp hp with hp | hp
    · obtain ⟨item, hitem, hp⟩ := List.mem_flatMap.mp hp
      obtain ⟨inner, hinner, rfl⟩ := List.mem_map.mp hitem
      have hvalues := (isWritable_obj.mp
        (isWritable_arr.mp (h _ List.mem_cons_self) _ hitem)).2
      exact htable hvalues (ihelements inner hinner hvalues) p hp
    · exact ihrest (fun member hmember => h member (List.mem_cons_of_mem _ hmember)) p hp

/-! ### Whole texts -/

/-- A header begins with a bracket. -/
theorem exists_line_eq_cons (p : Part) : ∃ after, p.line = '[' :: after := by
  have hopen : "[[".toList = ['[', '['] := by decide
  rw [Part.line, hopen]
  cases p.element with
  | true => exact ⟨_, rfl⟩
  | false => exact ⟨_, rfl⟩

/-- The first block stands in front. -/
theorem exists_joinBlocks_cons (block : List Char) (others : List (List Char)) :
    ∃ rest, joinBlocks (block :: others) = block ++ rest := by
  cases others with
  | nil => exact ⟨[], (List.append_nil block).symm⟩
  | cons next more => exact ⟨_, joinBlocks_cons block (List.cons_ne_nil _ _)⟩

/-- No byte order mark is at the front of a written text. -/
theorem head_joinBlocks {members : List (String × Json)} {c : Char} {rest : List Char}
    (h : joinBlocks (blocks [] false (.obj members)) = c :: rest) : c.toNat ≠ 0xFEFF := by
  rw [blocks_eq] at h
  -- A text begins with the first key of the plain members, or with the bracket of a header.
  cases hplain : plainMembers members with
  | nil =>
    cases hps : parts members with
    | nil =>
      rw [hplain, hps] at h
      cases h
    | cons p others =>
      obtain ⟨behind, hjoin⟩ := exists_joinBlocks_cons p.text (others.map Part.text)
      obtain ⟨after, hline⟩ := exists_line_eq_cons p
      rw [hplain, hps, List.isEmpty_nil, if_pos rfl, List.nil_append, List.map_cons, hjoin,
        Part.text, hline] at h
      rw [← (List.cons.inj h).1]
      decide
  | cons member others =>
    obtain ⟨key, j⟩ := member
    obtain ⟨d, more, hkey, hd⟩ := exists_quoteKey_eq_cons key
    obtain ⟨behind, hjoin⟩ := exists_joinBlocks_cons
      (((key, j) :: others).flatMap memberLine) ((parts members).map Part.text)
    rw [hplain, List.isEmpty_cons, if_neg Bool.false_ne_true, List.singleton_append, hjoin,
      List.flatMap_cons, memberLine, hkey] at h
    rw [← (List.cons.inj h).1]
    exact (of_keyStart hd).2.2.2.2.2.2

/-- The sections of a text make the value that it is read as. -/
theorem read_ofList {cs : List Char} (hmark : ∀ {c rest}, cs = c :: rest → c.toNat ≠ 0xFEFF) :
    read (String.ofList cs) = do
      let lines ← readSections (cs.length + 1) cs
      let entries ← lines.2.foldlM addSection =<< assignAll [] lines.1
      return .obj (entriesToJson entries) := by
  -- The lines above all headers are assigned before any section is added.
  have hvalue : ∀ lines : List Assignment × List Section,
      ((⟨.top, lines.1⟩ :: lines.2 : List Section).foldlM addSection [] >>= fun entries =>
        some (Json.obj (entriesToJson entries)))
      = (lines.2.foldlM addSection =<< assignAll [] lines.1) >>= fun entries =>
        some (Json.obj (entriesToJson entries)) := fun lines => by
    rw [List.foldlM_cons]
    rfl
  have hlines : readSections (cs.length + 1) cs >>= (fun lines =>
      (⟨.top, lines.1⟩ :: lines.2 : List Section).foldlM addSection [] >>= fun entries =>
        some (Json.obj (entriesToJson entries))) = _ := congrArg _ (funext hvalue)
  rw [read, String.toList_ofList]
  cases cs with
  | nil => exact hlines
  | cons c rest =>
    have hc : ¬(c.toNat == 0xFEFF) = true := fun he => hmark rfl (beq_iff_eq.mp he)
    dsimp only
    rw [if_neg hc]
    exact hlines

/-- **A written object is read back**, as what is found of it, if it fits; if it does not, its text
    is refused. -/
theorem read_joinBlocks {members : List (String × Json)} (h : IsWritable (.obj members)) :
    read (String.ofList (joinBlocks (blocks [] false (.obj members))))
      = if Fits (.obj members) then some (.obj (found members)) else none := by
  obtain ⟨hkeys, hvalues⟩ := isWritable_obj.mp h
  have hlines : ListsIf (Fits (.obj members)) (joinBlocks (blocks [] false (.obj members)))
      ((plainMembers members).map assignment) ((parts members).map Part.opening) :=
    listsIf_blocks (fun member hmember => hvalues member (List.mem_of_mem_filter hmember))
      (isWritable_of_mem_parts hvalues)
  -- The plain members are assigned first, and the headers make the tables behind them.
  have htables := openAll_parts hvalues (nodup_contents hkeys)
  rw [← contents_obj, openAll] at htables
  rw [read_ofList head_joinBlocks]
  split
  · rename_i hfits
    rw [hlines.listed hfits (Nat.lt_succ_self _)]
    simp only [Option.bind_eq_bind, Option.bind_some, assignAll_plainMembers hkeys]
    exact congrArg (Option.bind · _) htables
  · rename_i hnot
    rw [hlines.refused hnot]
    rfl

/-! ### What is refused -/

/-- Several items have no fault if none of them has one. -/
theorem firstItemFault_eq_none_iff {items : List Json} :
    firstItemFault items = none ↔ ∀ item ∈ items, firstFault item = none := by
  induction items with
  | nil => exact iff_of_true rfl fun _ h => absurd h List.not_mem_nil
  | cons item rest ih => rw [firstItemFault, Option.or_eq_none_iff, ih, List.forall_mem_cons]

/-- The first fault of some items is the first fault of one of them. -/
theorem exists_of_firstItemFault {items : List Json} {fault : WriteFault}
    (h : firstItemFault items = some fault) : ∃ item ∈ items, firstFault item = some fault := by
  induction items with
  | nil => cases h
  | cons item rest ih =>
    rw [firstItemFault, Option.or_eq_some_iff] at h
    rcases h with h | ⟨-, h⟩
    · exact ⟨item, List.mem_cons_self, h⟩
    · obtain ⟨other, hmem, hother⟩ := ih h
      exact ⟨other, List.mem_cons_of_mem _ hmem, hother⟩

theorem firstMemberFault_eq (members : List (String × Json)) :
    firstMemberFault members = firstItemFault (members.map Prod.snd) := by
  induction members with
  | nil => rfl
  | cons member rest ih => rw [firstMemberFault, ih, List.map_cons, firstItemFault]

/-- **Only nulls are refused**, if the integers have 64 bits with a sign. -/
theorem firstFault_eq_none_iff {j : Json} (h : IsSigned j) :
    firstFault j = none ↔ j.Every (· ≠ .null) := by
  induction j using Json.induction with
  | leaf j harr hobj =>
    have hself := h.self
    rw [Json.every_leaf harr hobj]
    cases j with
    | null => simp [firstFault]
    | int n => exact iff_of_true (if_pos hself.2) Json.noConfusion
    | arr items => exact absurd rfl (harr items)
    | obj members => exact absurd rfl (hobj members)
    | _ => exact iff_of_true rfl Json.noConfusion
  | arr items ih =>
    have hitems := (Json.every_arr.mp h).2
    have hne : Json.arr items ≠ .null := Json.noConfusion
    rw [firstFault, firstItemFault_eq_none_iff, Json.every_arr, and_iff_right hne]
    exact forall₂_congr fun item hitem => ih item hitem (hitems item hitem)
  | obj members ih =>
    have hmembers := (Json.every_obj.mp h).2
    have hne : Json.obj members ≠ .null := Json.noConfusion
    rw [firstFault, firstMemberFault_eq, firstItemFault_eq_none_iff, List.forall_mem_map,
      Json.every_obj, and_iff_right hne]
    exact forall₂_congr fun member hmember => ih member hmember (hmembers member hmember)

/-- What is refused is a null, if the integers have 64 bits with a sign. -/
theorem eq_null_of_firstFault {j : Json} (h : IsSigned j) {fault : WriteFault}
    (hfault : firstFault j = some fault) : fault = .null := by
  induction j using Json.induction with
  | leaf j harr hobj =>
    have hself := h.self
    cases j with
    | null => exact (Option.some.inj hfault).symm
    | int n =>
      rw [firstFault, if_pos hself.2] at hfault
      cases hfault
    | arr items => exact absurd rfl (harr items)
    | obj members => exact absurd rfl (hobj members)
    | _ => cases hfault
  | arr items ih =>
    obtain ⟨item, hitem, hfault⟩ := exists_of_firstItemFault hfault
    exact ih item hitem ((Json.every_arr.mp h).2 item hitem) hfault
  | obj members ih =>
    rw [firstFault, firstMemberFault_eq] at hfault
    obtain ⟨value, hvalue, hfault⟩ := exists_of_firstItemFault hfault
    obtain ⟨member, hmember, rfl⟩ := List.mem_map.mp hvalue
    exact ih member hmember ((Json.every_obj.mp h).2 member hmember) hfault

end DocRelay.Toml
