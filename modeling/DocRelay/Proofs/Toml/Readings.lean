import DocRelay.Proofs.Toml.Tree

namespace DocRelay.Toml

/-!
# What texts are read as

Whatever text is read, there is no null in its value, its integers have 64 bits with a sign, and no
object has a key twice: every integer is checked where it is read, a key is put only where it is
new, and nothing else is computed.

* `IsRead` — what is known of a value that was read;
* `Gives` — what holds of a result, if there is one; its rules follow the steps of a reader;
* `gives_readValue`, `gives_readSections` — values and lines;
* `gives_update`, `gives_addSection` — the tables that they are put into;
* `isRead_of_read` — whole texts;
* `IsRead.isSigned_canonical`, `IsRead.every_ne_null_canonical_iff`, `IsRead.isWritable_canonical`
  — the integers, the nulls and what can be written of its canonical form.
-/

/-- A value can come out of a text as far as it is not up to what it is made of: it is no null, an
    integer has 64 bits with a sign, and an object has no key twice. -/
def IsReadAlone : Json → Prop
  | .null => False
  | .int n => IsSigned64 n
  | .obj members => (Table.keys members).Nodup
  | _ => True

/-- A value can come out of a text, with all that it is made of. -/
def IsRead (j : Json) : Prop :=
  j.Every IsReadAlone

theorem isRead_arr {items : List Json} : IsRead (.arr items) ↔ ∀ item ∈ items, IsRead item :=
  Json.every_arr.trans ⟨fun h => h.2, fun h => ⟨trivial, h⟩⟩

theorem isRead_obj {members : List (String × Json)} :
    IsRead (.obj members) ↔ (Table.keys members).Nodup ∧ ∀ member ∈ members, IsRead member.2 :=
  Json.every_obj

theorem isRead_int {n : Int} : IsRead (.int n) ↔ IsSigned64 n :=
  Json.every_leaf (fun _ => Json.noConfusion) fun _ => Json.noConfusion

theorem isRead_float (x : Binary64) : IsRead (.float x) :=
  (Json.every_leaf (fun _ => Json.noConfusion) fun _ => Json.noConfusion).mpr trivial

theorem isRead_str (s : String) : IsRead (.str s) :=
  (Json.every_leaf (fun _ => Json.noConfusion) fun _ => Json.noConfusion).mpr trivial

theorem isRead_bool (b : Bool) : IsRead (.bool b) :=
  (Json.every_leaf (fun _ => Json.noConfusion) fun _ => Json.noConfusion).mpr trivial

/-! ### What a step gives -/

section Gives

variable {α β : Type} {p : α → Prop} {q : β → Prop}

/-- The result has the property, if there is one. -/
def Gives (p : α → Prop) (x : Option α) : Prop :=
  ∀ a, x = some a → p a

theorem gives_none : Gives p none :=
  fun _ h => nomatch h

theorem gives_some {a : α} (h : p a) : Gives p (some a) :=
  fun _ he => Option.some.inj he ▸ h

theorem Gives.bind {x : Option α} {f : α → Option β} (hx : Gives p x)
    (hf : ∀ a, p a → Gives q (f a)) : Gives q (x >>= f) := by
  intro b hb
  obtain ⟨a, ha, hb⟩ := Option.bind_eq_some_iff.mp hb
  exact hf a (hx a ha) b hb

/-- A step of which nothing needs to be known. -/
theorem gives_bind {x : Option α} {f : α → Option β} (hf : ∀ a, Gives q (f a)) :
    Gives q (x >>= f) :=
  Gives.bind (p := fun _ => True) (fun _ _ => trivial) fun a _ => hf a

theorem Gives.map {x : Option α} {f : α → β} (hx : Gives p x) (hf : ∀ a, p a → q (f a)) :
    Gives q (x.map f) := by
  intro b hb
  obtain ⟨a, ha, rfl⟩ := Option.map_eq_some_iff.mp hb
  exact hf a (hx a ha)

theorem Gives.or {x y : Option α} (hx : Gives p x) (hy : Gives p y) : Gives p (x.or y) := by
  cases x with
  | none => exact hy
  | some a => exact hx

end Gives

/-! ### Values -/

/-- The value that is read is one that can be read. -/
def GivesRead (x : Option (Json × List Char)) : Prop :=
  Gives (fun r => IsRead r.1) x

theorem gives_signed64? (n : Int) : Gives IsRead (signed64? n) := by
  rw [signed64?]
  split
  · rename_i h
    rw [Bool.and_eq_true, decide_eq_true_eq, decide_eq_true_eq] at h
    exact gives_some (isRead_int.mpr h)
  · exact gives_none

theorem givesRead_readBased (base : Nat) (cs : List Char) : GivesRead (readBased base cs) := by
  rw [readBased]
  refine gives_bind fun digits => gives_bind fun n => ?_
  exact (gives_signed64? _).bind fun j hj => gives_some hj

theorem givesRead_readInteger (cs : List Char) : GivesRead (readInteger cs) := by
  rw [readInteger.eq_def]
  split
  · exact givesRead_readBased 16 _
  · exact givesRead_readBased 8 _
  · exact givesRead_readBased 2 _
  · refine gives_bind fun digits => gives_bind fun n => ?_
    exact (gives_signed64? _).bind fun j hj => gives_some hj

theorem givesRead_readFloat (cs : List Char) : GivesRead (readFloat cs) := by
  rw [readFloat]
  generalize readSign cs = start
  refine gives_bind ?_
  rintro ⟨whole, rest⟩
  -- With a point or without, what comes out is a number with one.
  dsimp only
  split <;>
  · refine gives_bind ?_
    rintro ⟨fraction, rest⟩
    refine gives_bind ?_
    rintro ⟨exponent, rest⟩
    dsimp only
    split
    · exact gives_none
    · refine gives_bind fun coefficient => ?_
      split
      · exact gives_none
      · exact gives_some (isRead_float _)

theorem givesRead_readSpecial (cs : List Char) : GivesRead (readSpecial cs) := by
  rw [readSpecial]
  dsimp only
  split
  · exact gives_some (isRead_float _)
  · exact gives_some (isRead_float _)
  · exact gives_none

theorem givesRead_readNumeral (cs : List Char) : GivesRead (readNumeral cs) := by
  rw [readNumeral]
  split
  · exact gives_some (isRead_obj.mpr ⟨List.nodup_singleton _,
      List.forall_mem_singleton.mpr (isRead_str _)⟩)
  · exact (givesRead_readFloat cs).or
      ((givesRead_readSpecial cs).or (givesRead_readInteger cs))

theorem givesRead_readPlain (cs : List Char) : GivesRead (readPlain cs) := by
  rw [readPlain.eq_def]
  split
  · exact Gives.map (p := fun _ => True) (fun _ _ => trivial) fun _ _ => isRead_str _
  · exact Gives.map (p := fun _ => True) (fun _ _ => trivial) fun _ _ => isRead_str _
  · exact gives_some (isRead_bool true)
  · exact gives_some (isRead_bool false)
  · exact givesRead_readNumeral cs

/-! ### Tables -/

/-- The entries can come out of a text: their keys are different, and so can the values below. -/
def AreRead (entries : Entries) : Prop :=
  IsRead (.obj (entriesToJson entries))

theorem areRead_iff {entries : Entries} :
    AreRead entries ↔ (Table.keys entries).Nodup ∧ ∀ e ∈ entries, IsRead e.2.toJson := by
  have hkeys : Table.keys (entriesToJson entries) = Table.keys entries := by
    rw [entriesToJson_eq_map, Table.keys, List.map_map]
    rfl
  rw [AreRead, isRead_obj, hkeys, entriesToJson_eq_map, List.forall_mem_map]

theorem areRead_nil : AreRead [] :=
  areRead_iff.mpr ⟨List.nodup_nil, fun _ h => absurd h List.not_mem_nil⟩

theorem isRead_table {origin : Origin} {entries : Entries} :
    IsRead (Node.toJson (.table origin entries)) ↔ AreRead entries := by
  rw [Node.toJson, AreRead]

theorem isRead_tables {elements : List Entries} :
    IsRead (Node.toJson (.tables elements)) ↔ ∀ entries ∈ elements, AreRead entries := by
  rw [Node.toJson, isRead_arr, elementsToJson_eq_map, List.forall_mem_map]
  rfl

/-- A node under a new key. -/
theorem AreRead.concat {entries : Entries} (h : AreRead entries) {key : String} {node : Node}
    (hnew : key ∉ Table.keys entries) (hnode : IsRead node.toJson) :
    AreRead (entries ++ [(key, node)]) := by
  obtain ⟨hkeys, hvalues⟩ := areRead_iff.mp h
  refine areRead_iff.mpr ⟨?_, List.forall_mem_append.mpr
    ⟨hvalues, List.forall_mem_singleton.mpr hnode⟩⟩
  rw [keys_append, Table.keys, Table.keys, List.map_singleton, ← List.concat_eq_append]
  exact List.Nodup.concat hnew hkeys

/-- A node in the place of another. -/
theorem AreRead.replace {entries : Entries} (h : AreRead entries) {key : String} {node : Node}
    (hnode : IsRead node.toJson) : AreRead (replace entries key node) := by
  obtain ⟨hkeys, hvalues⟩ := areRead_iff.mp h
  refine areRead_iff.mpr ⟨?_, List.forall_mem_map.mpr fun e he => ?_⟩
  · have hsame : Table.keys (Toml.replace entries key node) = Table.keys entries := by
      rw [Toml.replace, Table.keys, Table.keys, List.map_map]
      refine List.map_congr_left fun e _ => ?_
      rw [Function.comp_apply]
      split
      · exact (beq_iff_eq.mp ‹_›).symm
      · rfl
    rw [hsame]
    exact hkeys
  · split
    · exact hnode
    · exact hvalues e he

/-- What is found under a key is among the entries. -/
theorem AreRead.find? {entries : Entries} (h : AreRead entries) {key : String} {node : Node}
    (hfind : find? entries key = some node) : IsRead node.toJson := by
  rw [Toml.find?, List.lookup_eq_some_iff] at hfind
  obtain ⟨before, after, rfl, -⟩ := hfind
  exact (areRead_iff.mp h).2 (key, node) (List.mem_append_right _ List.mem_cons_self)

/-- The entries without a key, and the key with a node. -/
theorem AreRead.remove_concat {entries : Entries} (h : AreRead entries) (key : String)
    {node : Node} (hnode : IsRead node.toJson) : AreRead (remove entries key ++ [(key, node)]) := by
  obtain ⟨hkeys, hvalues⟩ := areRead_iff.mp h
  have hrest : AreRead (remove entries key) := areRead_iff.mpr
    ⟨hkeys.sublist (List.filter_sublist.map _), fun e he => hvalues e (List.mem_of_mem_filter he)⟩
  refine hrest.concat (fun hmem => ?_) hnode
  obtain ⟨e, he, rfl⟩ := List.mem_map.mp hmem
  simp [remove] at he

/-- **A change of a table** to what can be read leads there wherever it is made. -/
theorem gives_update {fresh : Origin} {change : Origin → Entries → Option Entries}
    (hchange : ∀ origin entries, AreRead entries → Gives AreRead (change origin entries))
    (path : List String) (origin : Origin) {entries : Entries} (h : AreRead entries) :
    Gives AreRead (update fresh change path origin entries) := by
  induction path generalizing origin entries with
  | nil => exact hchange origin entries h
  | cons key path ih =>
    rw [update]
    split
    · -- A missing table comes about with nothing in it.
      rename_i hnone
      exact (ih fresh areRead_nil).bind fun inner hinner =>
        gives_some (h.concat (find?_eq_none_iff.mp hnone) (isRead_table.mpr hinner))
    · exact gives_none
    · rename_i known inner hfind
      split
      · exact gives_none
      · exact (ih known (isRead_table.mp (h.find? hfind))).bind fun changed hchanged =>
          gives_some (h.replace (isRead_table.mpr hchanged))
    · -- Of an array of tables, the last one is changed.
      rename_i elements hfind
      have helements := isRead_tables.mp (h.find? hfind)
      split
      · exact gives_none
      · rename_i last hlast
        refine (ih .header (helements last (List.mem_of_getLast? hlast))).bind
          fun changed hchanged => gives_some (h.replace (isRead_tables.mpr ?_))
        exact List.forall_mem_append.mpr
          ⟨fun entries he => helements entries (List.mem_of_mem_dropLast he),
            List.forall_mem_singleton.mpr hchanged⟩

theorem gives_assign {j : Json} (hj : IsRead j) (path : List String) (key : String)
    {entries : Entries} (h : AreRead entries) : Gives AreRead (assign path key j entries) := by
  refine gives_update (fun origin inner hinner => ?_) path .header h
  split
  · exact gives_none
  · rw [put]
    split
    · exact gives_none
    · exact gives_some (hinner.concat (find?_eq_none_iff.mp ‹_›) (by rwa [Node.toJson]))

theorem gives_assignAll {assignments : List Assignment}
    (hvalues : ∀ a ∈ assignments, IsRead a.value) {entries : Entries} (h : AreRead entries) :
    Gives AreRead (assignAll entries assignments) := by
  induction assignments generalizing entries with
  | nil => exact gives_some h
  | cons a others ih =>
    rw [assignAll, List.foldlM_cons]
    exact (gives_assign (hvalues a List.mem_cons_self) a.path a.key h).bind fun next hnext =>
      ih (fun b hb => hvalues b (List.mem_cons_of_mem _ hb)) hnext

theorem gives_addSection {s : Section} (hbody : ∀ a ∈ s.body, IsRead a.value)
    {entries : Entries} (h : AreRead entries) : Gives AreRead (addSection entries s) := by
  rw [addSection]
  split
  · exact gives_assignAll hbody h
  · -- A header of a table: the table is new, or was only implied so far.
    refine gives_update (fun origin inner hinner => ?_) _ .header h
    split
    · rename_i hnone
      exact (gives_assignAll hbody areRead_nil).bind fun table htable =>
        gives_some (hinner.concat (find?_eq_none_iff.mp hnone) (isRead_table.mpr htable))
    · rename_i known hfind
      exact (gives_assignAll hbody (isRead_table.mp (hinner.find? hfind))).bind
        fun table htable => gives_some (hinner.remove_concat _ (isRead_table.mpr htable))
    · exact gives_none
  · -- A header of an element: the array of tables is new, or gets one element more.
    refine gives_update (fun origin inner hinner => ?_) _ .header h
    refine (gives_assignAll hbody areRead_nil).bind fun table htable => ?_
    have hsingle : ∀ es ∈ [table], AreRead es := List.forall_mem_singleton.mpr htable
    split
    · rename_i hnone
      exact gives_some (hinner.concat (find?_eq_none_iff.mp hnone) (isRead_tables.mpr hsingle))
    · rename_i elements hfind
      exact gives_some (hinner.replace (isRead_tables.mpr
        (List.forall_mem_append.mpr ⟨isRead_tables.mp (hinner.find? hfind), hsingle⟩)))
    · exact gives_none

/-! ### Values with parts -/

section Parts

variable {value : List Char → Option (Json × List Char)} (hvalue : ∀ cs, GivesRead (value cs))

include hvalue

theorem gives_readArray (fuel : Nat) (cs : List Char) :
    Gives (fun r => ∀ item ∈ r.1, IsRead item) (readArray value fuel cs) := by
  induction fuel generalizing cs with
  | zero => exact gives_none
  | succ fuel ih =>
    rw [readArray]
    refine gives_bind fun start => ?_
    split
    · exact gives_some fun item hitem => absurd hitem List.not_mem_nil
    · refine (hvalue _).bind fun first hfirst => gives_bind fun behind => ?_
      split
      · exact (ih _).bind fun others hothers =>
          gives_some (List.forall_mem_cons.mpr ⟨hfirst, hothers⟩)
      · exact gives_some (List.forall_mem_singleton.mpr hfirst)
      · exact gives_none

theorem gives_readAssignment (cs : List Char) :
    Gives (fun r => IsRead r.1.value) (readAssignment value cs) := by
  rw [readAssignment]
  refine gives_bind fun key => gives_bind fun behind => ?_
  exact (hvalue _).bind fun r hr => gives_some hr

theorem gives_readInline (fuel : Nat) (cs : List Char) :
    Gives (fun r => ∀ a ∈ r.1, IsRead a.value) (readInline value fuel cs) := by
  induction fuel generalizing cs with
  | zero => exact gives_none
  | succ fuel ih =>
    rw [readInline]
    refine (gives_readAssignment hvalue cs).bind fun first hfirst => ?_
    dsimp only
    split
    · exact (ih _).bind fun others hothers =>
        gives_some (List.forall_mem_cons.mpr ⟨hfirst, hothers⟩)
    · exact gives_some (List.forall_mem_singleton.mpr hfirst)
    · exact gives_none

theorem givesRead_readInlineTable (cs : List Char) :
    GivesRead (readInlineTable value cs) := by
  rw [readInlineTable.eq_def]
  split
  · exact gives_some (isRead_obj.mpr ⟨List.nodup_nil, fun member h => absurd h List.not_mem_nil⟩)
  · refine (gives_readInline hvalue _ _).bind fun assignments hassignments => ?_
    exact (gives_assignAll hassignments areRead_nil).bind fun entries hentries =>
      gives_some hentries

theorem givesRead_readValueWith (cs : List Char) :
    GivesRead (readValueWith (some value) cs) := by
  rw [readValueWith.eq_def]
  split
  · exact (gives_readArray hvalue _ _).bind fun items hitems =>
      gives_some (isRead_arr.mpr hitems)
  · exact givesRead_readInlineTable hvalue _
  · exact givesRead_readPlain cs

end Parts

/-- Values are read as what can be read. -/
theorem givesRead_readValue (depth : Nat) (cs : List Char) :
    GivesRead (readValue depth cs) := by
  induction depth generalizing cs with
  | zero =>
    rw [readValue, readValueWith.eq_def]
    split
    · exact gives_none
    · exact gives_none
    · exact givesRead_readPlain cs
  | succ depth ih => exact givesRead_readValueWith ih cs

/-! ### Texts -/

/-- The values of lines are ones that can be read. -/
theorem gives_readSections (fuel : Nat) (cs : List Char) :
    Gives (fun r => (∀ a ∈ r.1, IsRead a.value) ∧ ∀ s ∈ r.2, ∀ a ∈ s.body, IsRead a.value)
      (readSections fuel cs) := by
  induction fuel generalizing cs with
  | zero => exact gives_none
  | succ fuel ih =>
    rw [readSections]
    split
    · exact gives_some ⟨fun a h => absurd h List.not_mem_nil, fun s h => absurd h List.not_mem_nil⟩
    · exact gives_bind fun rest => ih _
    · refine gives_bind fun heading => gives_bind fun rest => (ih rest).bind fun below hbelow => ?_
      exact gives_some ⟨fun a h => absurd h List.not_mem_nil, List.forall_mem_cons.mpr hbelow⟩
    · split
      · exact ih _
      · refine (gives_readAssignment (givesRead_readValue depthLimit) _).bind fun a ha => ?_
        refine gives_bind fun rest => (ih rest).bind fun below hbelow => ?_
        exact gives_some ⟨List.forall_mem_cons.mpr ⟨ha, hbelow.1⟩, hbelow.2⟩

theorem gives_foldlM_addSection {sections : List Section}
    (hsections : ∀ s ∈ sections, ∀ a ∈ s.body, IsRead a.value) {entries : Entries}
    (h : AreRead entries) : Gives AreRead (sections.foldlM addSection entries) := by
  induction sections generalizing entries with
  | nil => exact gives_some h
  | cons s others ih =>
    rw [List.foldlM_cons]
    exact (gives_addSection (hsections s List.mem_cons_self) h).bind fun next hnext =>
      ih (fun t ht => hsections t (List.mem_cons_of_mem _ ht)) hnext

/-- **Whole texts.** A configuration text is read as a value without nulls, with integers of 64
    bits with a sign, and with no key twice. -/
theorem isRead_of_read {text : String} {j : Json} (h : read text = some j) : IsRead j := by
  have hread : Gives IsRead (read text) := by
    rw [read]
    refine (gives_readSections _ _).bind fun sections hsections => ?_
    have hall : ∀ s ∈ (⟨.top, sections.1⟩ :: sections.2 : List Section), ∀ a ∈ s.body,
        IsRead a.value := List.forall_mem_cons.mpr hsections
    exact (gives_foldlM_addSection hall areRead_nil).bind fun entries hentries =>
      gives_some hentries
  exact hread j h

/-! ### What is kept of it -/

/-- What can be read has no key twice. -/
theorem IsReadAlone.hasDistinctKeys {part : Json} (h : IsReadAlone part) :
    part.HasDistinctKeys := by
  cases part with
  | obj members => exact h
  | _ => trivial

/-- **Canonical forms** of what can be read have a property throughout, if the canonical forms of
    the values within have it. -/
theorem IsRead.every_canonical_iff {p : Json → Prop} {j : Json} (h : IsRead j) :
    j.canonical.Every p ↔ j.Every fun part => p part.canonical :=
  Json.every_canonical_iff (h.imp fun _ => IsReadAlone.hasDistinctKeys)

/-- The integers stay as they are. -/
theorem IsRead.isSigned_canonical {j : Json} (h : IsRead j) : IsSigned j.canonical := by
  refine h.every_canonical_iff.mpr (h.imp fun part hpart => ?_)
  cases part with
  | int n => exact hpart
  | float x =>
    rw [Json.canonical]
    split <;> trivial
  | _ => trivial

/-- **Nulls** stand for the numbers that are not finite, and for nothing else. -/
theorem IsRead.every_ne_null_canonical_iff {j : Json} (h : IsRead j) :
    j.canonical.Every (· ≠ .null) ↔ j.IsFinite := by
  have halone : ∀ part, IsReadAlone part → (part.canonical ≠ .null ↔ part.IsFiniteAlone) := by
    intro part hpart
    cases part with
    | null => exact hpart.elim
    | float x =>
      rw [Json.canonical]
      by_cases hx : x.isFinite = true
      · simp [hx, Json.IsFiniteAlone]
      · simp [hx, Json.IsFiniteAlone]
    | _ => exact iff_of_true Json.noConfusion trivial
  rw [h.every_canonical_iff]
  exact ⟨fun hnull => (h.and hnull).imp fun part hpart => (halone part hpart.1).mp hpart.2,
    fun hfinite => (h.and hfinite).imp fun part hpart => (halone part hpart.1).mpr hpart.2⟩

/-- **What can be written** of what can be read: all of it, if its numbers are finite. -/
theorem IsRead.isWritable_canonical {j : Json} (h : IsRead j) (hfinite : j.IsFinite) :
    IsWritable j.canonical := by
  refine h.every_canonical_iff.mpr ((h.and hfinite).imp fun part hpart => ?_)
  obtain ⟨hread, hpart⟩ := hpart
  cases part with
  | null => exact hread
  | int n => exact hread
  | float x =>
    have hx : x.isFinite = true := hpart
    rw [Json.canonical, if_pos hx]
    exact hx
  | obj members => exact (Table.sorted_ofPairs _).nodup
  | _ => trivial

end DocRelay.Toml
