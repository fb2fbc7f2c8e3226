import DocRelay.Proofs.Json.Within
import DocRelay.Proofs.Toml.Numbers
import DocRelay.Proofs.Toml.Strings

namespace DocRelay.Toml

/-!
# Reading written values

A value within a line is read back if its numbers can be written and no key is used twice in an
inline table, unless it is nested deeper than the reader goes: then it is refused.

* `readKey_renderPath` — a key with dots;
* `assignAll_plain` — assignments to different keys;
* `IsWritable`, `levels` — the values that can be written, and how deep they are nested;
* `ReadsWithin` — what is read at a depth; `readArray_renderItems`, `readInline_renderMembers`;
* `readValue_renderValue` — a written value is read back or refused.
-/

/-! ### Keys -/

theorem skipSpaces_cons {c : Char} (h : isSpace c = false) (rest : List Char) :
    skipSpaces (c :: rest) = c :: rest := by
  rw [skipSpaces, List.dropWhile_cons_of_neg (by simp [h])]

theorem skipSpaces_append {blanks : List Char} (h : ∀ b ∈ blanks, isSpace b = true)
    (rest : List Char) : skipSpaces (blanks ++ rest) = skipSpaces rest := by
  rw [skipSpaces, List.dropWhile_append_of_pos h, ← skipSpaces]

/-- What a written key begins with is none of the other marks of a text. -/
theorem of_keyStart {c : Char} (h : isBare c = true ∨ c = '"' ∨ c = '\'') :
    isSpace c = false ∧ c ≠ '\x7d' ∧ c ≠ '[' ∧ c ≠ '#' ∧ c ≠ '\n' ∧ c ≠ '\r'
      ∧ c.toNat ≠ 0xFEFF := by
  rcases h with h | rfl | rfl
  · have hne : ∀ {d : Char}, isBare d = false → c ≠ d := by
      rintro d hd rfl
      rw [hd] at h
      cases h
    have hspace : isSpace c = false := by
      simp [isSpace, hne (show isBare ' ' = false by decide),
        hne (show isBare '\t' = false by decide)]
    refine ⟨hspace, hne (by decide), hne (by decide), hne (by decide), hne (by decide),
      hne (by decide), fun he => ?_⟩
    exact @hne (Char.ofNat 0xFEFF) (by decide) (by rw [← he, Char.ofNat_toNat])
  · decide
  · decide

/-- A written key begins with no blank. -/
theorem skipSpaces_quoteKey (key : String) (rest : List Char) :
    skipSpaces (quoteKey key ++ rest) = quoteKey key ++ rest := by
  obtain ⟨c, others, hkey, hc⟩ := exists_quoteKey_eq_cons key
  rw [hkey, List.cons_append]
  exact skipSpaces_cons (of_keyStart hc).1 _

/-- A key that is followed by something else than a dot ends there. -/
theorem readKeyParts_renderPath {path : List String} (hne : path ≠ []) {c d : Char}
    {rest after : List Char} (hc : isKeyStop c = true) (hskip : skipSpaces (c :: rest) = d :: after)
    (hd : d ≠ '.') {fuel : Nat} (hfuel : path.length ≤ fuel) {blanks : List Char}
    (hblanks : ∀ b ∈ blanks, isSpace b = true) :
    readKeyParts fuel (blanks ++ (renderPath path ++ c :: rest)) = some (path, d :: after) := by
  induction path generalizing fuel blanks with
  | nil => exact absurd rfl hne
  | cons key others ih =>
    obtain ⟨fuel, rfl⟩ : ∃ more, fuel = more + 1 :=
      Nat.exists_eq_succ_of_ne_zero (by simp only [List.length_cons] at hfuel; omega)
    rw [readKeyParts, skipSpaces_append hblanks]
    cases others with
    | nil =>
      rw [renderPath, skipSpaces_quoteKey, readKeyPart_quoteKey key hc]
      simp only [Option.bind_eq_bind, Option.bind_some, hskip]
      split
      · rename_i he
        exact absurd (List.cons.inj he).1 hd
      · rfl
    | cons next more =>
      have hnext := @ih (List.cons_ne_nil _ _) fuel (Nat.le_of_succ_le_succ hfuel) []
        (fun b hb => absurd hb List.not_mem_nil)
      rw [List.nil_append] at hnext
      rw [renderPath, List.append_assoc, List.cons_append, skipSpaces_quoteKey,
        readKeyPart_quoteKey key (by decide)]
      simp only [Option.bind_eq_bind, Option.bind_some,
        skipSpaces_cons (show isSpace '.' = false by decide), hnext]
      rfl
      exact List.cons_ne_nil _ _

/-- A written path begins with a key. -/
theorem exists_renderPath_eq_cons {path : List String} (hne : path ≠ []) :
    ∃ c others, renderPath path = c :: others ∧ (isBare c = true ∨ c = '"' ∨ c = '\'') := by
  obtain ⟨key, others, rfl⟩ := List.exists_cons_of_ne_nil hne
  obtain ⟨c, more, hkey, hc⟩ := exists_quoteKey_eq_cons key
  cases others with
  | nil => exact ⟨c, more, hkey, hc⟩
  | cons next rest =>
    refine ⟨c, more ++ '.' :: renderPath (next :: rest), ?_, hc⟩
    rw [renderPath, hkey]
    · rfl
    · exact List.cons_ne_nil _ _

/-- Every key of a path takes at least one character. -/
theorem length_le_renderPath (path : List String) : path.length ≤ (renderPath path).length := by
  induction path with
  | nil => exact Nat.le_refl 0
  | cons key others ih =>
    obtain ⟨c, more, hkey, -⟩ := exists_quoteKey_eq_cons key
    cases others with
    | nil => simp [renderPath, hkey]
    | cons next more =>
      rw [renderPath, hkey]
      · simp only [List.length_append, List.length_cons] at ih ⊢
        omega
      · exact List.cons_ne_nil _ _

/-- **A written key with dots is read back**, if it has no more parts than a key may have. -/
theorem readKey_renderPath {path : List String} {key : String} {c d : Char}
    {rest after : List Char} (hc : isKeyStop c = true) (hskip : skipSpaces (c :: rest) = d :: after)
    (hd : d ≠ '.') {blanks : List Char} (hblanks : ∀ b ∈ blanks, isSpace b = true) :
    readKey (blanks ++ (renderPath (path ++ [key]) ++ c :: rest))
      = if path.length < depthLimit then some ((path, key), d :: after) else none := by
  have hlength := length_le_renderPath (path ++ [key])
  have hlimit : depthLimit < (path ++ [key]).length ↔ ¬path.length < depthLimit := by
    rw [List.length_append, List.length_singleton]
    omega
  rw [readKey, readKeyParts_renderPath (by simp) hc hskip hd
    (by simp only [List.length_append] at hlength ⊢; omega) hblanks]
  simp only [Option.bind_eq_bind, Option.bind_some, List.getLast?_concat, List.dropLast_concat,
    hlimit, ite_not]

/-! ### Assignments -/

/-- A member as an assignment. -/
def assignment (member : String × Json) : Assignment :=
  ⟨[], member.1, member.2⟩

/-- A member as an entry. -/
def entry (member : String × Json) : String × Node :=
  (member.1, .value member.2)

theorem find?_eq_none_iff {entries : Entries} {key : String} :
    find? entries key = none ↔ key ∉ Table.keys entries := by
  rw [find?, List.lookup_eq_none_iff, Table.keys, List.mem_map, not_exists]
  refine forall_congr' fun e => ?_
  rw [not_and, bne_iff_ne, ne_comm]

/-- If the keys of entries and of what comes next are different, the first one that comes is new,
    and they are still different behind it. -/
theorem nodup_concat {α β : Type} (entries : List (String × α)) (next : String × α)
    (others : List (String × β)) (h : (Table.keys entries ++ next.1 :: Table.keys others).Nodup) :
    next.1 ∉ Table.keys entries ∧ (Table.keys (entries ++ [next]) ++ Table.keys others).Nodup := by
  constructor
  · intro hmem
    exact (List.nodup_append.mp h).2.2 _ hmem _ List.mem_cons_self rfl
  · simpa [Table.keys] using h

/-- An assignment to a new key. -/
theorem assign_plain {entries : Entries} {key : String} (h : key ∉ Table.keys entries) (j : Json) :
    assign [] key j entries = some (entries ++ [(key, .value j)]) := by
  rw [assign, update, if_neg (by decide), put, find?_eq_none_iff.mpr h]

/-- **Assignments to different keys** are all made, in order. -/
theorem assignAll_plain {entries : Entries} {members : List (String × Json)}
    (h : (Table.keys entries ++ Table.keys members).Nodup) :
    assignAll entries (members.map assignment) = some (entries ++ members.map entry) := by
  induction members generalizing entries with
  | nil => simp [assignAll]
  | cons member others ih =>
    obtain ⟨hnew, hnext⟩ : member.1 ∉ Table.keys entries
        ∧ (Table.keys (entries ++ [entry member]) ++ Table.keys others).Nodup :=
      nodup_concat entries (entry member) others h
    have hrest := ih hnext
    rw [assignAll] at hrest ⊢
    rw [List.map_cons, List.foldlM_cons]
    show (assign [] member.1 member.2 entries >>= _) = _
    rw [assign_plain hnew]
    simp only [Option.bind_eq_bind, Option.bind_some]
    rw [← entry, hrest, List.append_assoc]
    rfl

theorem entriesToJson_eq_map (entries : Entries) :
    entriesToJson entries = entries.map fun e => (e.1, e.2.toJson) := by
  induction entries with
  | nil => rfl
  | cons e others ih => rw [entriesToJson, ih, List.map_cons]

theorem elementsToJson_eq_map (elements : List Entries) :
    elementsToJson elements = elements.map fun entries => .obj (entriesToJson entries) := by
  induction elements with
  | nil => rfl
  | cons first others ih => rw [elementsToJson, ih, List.map_cons]

/-- Members that were assigned are the members that are read. -/
theorem entriesToJson_plain (members : List (String × Json)) :
    entriesToJson (members.map entry) = members := by
  have hsame : ((fun e : String × Node => (e.1, e.2.toJson)) ∘ entry) = id := by
    funext member
    rw [Function.comp_apply, entry, Node.toJson, id]
  rw [entriesToJson_eq_map, List.map_map, hsame, List.map_id]

/-! ### What can be written -/

/-- A value can be written as far as it is not up to what it is made of: it is no null, an integer
    has 64 bits with a sign, a number is finite, and an object has no key twice. -/
def IsWritableAlone : Json → Prop
  | .null => False
  | .int n => IsSigned64 n
  | .float x => x.isFinite = true
  | .obj members => (Table.keys members).Nodup
  | _ => True

/-- A value can be written, with all that it is made of. -/
def IsWritable (j : Json) : Prop :=
  j.Every IsWritableAlone

/-- An integer has 64 bits with a sign, up to what a value is made of. -/
def IsSignedAlone : Json → Prop
  | .int n => IsSigned64 n
  | _ => True

/-- All integers within a value have 64 bits with a sign. -/
def IsSigned (j : Json) : Prop :=
  j.Every IsSignedAlone

theorem isWritable_arr {items : List Json} :
    IsWritable (.arr items) ↔ ∀ item ∈ items, IsWritable item :=
  Json.every_arr.trans ⟨fun h => h.2, fun h => ⟨trivial, h⟩⟩

theorem isWritable_obj {members : List (String × Json)} :
    IsWritable (.obj members)
      ↔ (Table.keys members).Nodup ∧ ∀ member ∈ members, IsWritable member.2 :=
  Json.every_obj

mutual

/-- How many arrays and objects enclose what is innermost in a value, its own included. -/
def levels : Json → Nat
  | .arr items => itemLevels items + 1
  | .obj members => memberLevels members + 1
  | _ => 0

/-- The levels of the deepest item. -/
def itemLevels : List Json → Nat
  | [] => 0
  | item :: rest => max (levels item) (itemLevels rest)

/-- The levels of the deepest member. -/
def memberLevels : List (String × Json) → Nat
  | [] => 0
  | (_, value) :: rest => max (levels value) (memberLevels rest)

end

/-! ### Values within a line -/

/-- A character that begins no gap between the items of an array. -/
def isSolid (c : Char) : Bool :=
  !(isSpace c || c == '\n' || c == '\r' || c == '#')

theorem isSolid_of_number {c : Char} (h : c = '-' ∨ c.isDigit = true) :
    isSolid c = true ∧ c ≠ ']' ∧ c ≠ '[' ∧ c ≠ '\x7b' ∧ c ≠ '"' ∧ c ≠ '\'' ∧ c ≠ 't' ∧ c ≠ 'f' := by
  rcases h with rfl | h
  · decide
  · have hne : ∀ {d : Char}, d.isDigit = false → c ≠ d := by
      rintro d hd rfl
      rw [hd] at h
      cases h
    have hsolid : isSolid c = true := by
      simp [isSolid, isSpace, hne (show ' '.isDigit = false by decide),
        hne (show '\t'.isDigit = false by decide), hne (show '\n'.isDigit = false by decide),
        hne (show '\r'.isDigit = false by decide), hne (show '#'.isDigit = false by decide)]
    exact ⟨hsolid, hne (by decide), hne (by decide), hne (by decide), hne (by decide),
      hne (by decide), hne (by decide), hne (by decide)⟩

/-- A value that is neither an array nor a table is read as such at every depth. -/
theorem readValue_plain (depth : Nat) {c : Char} {rest : List Char} (hbracket : c ≠ '[')
    (hbrace : c ≠ '\x7b') : readValue depth (c :: rest) = readPlain (c :: rest) := by
  cases depth <;>
  · rw [readValue, readValueWith]
    · exact fun after he => hbracket (List.cons.inj he).1
    · exact fun after he => hbrace (List.cons.inj he).1

/-- A number is read as such at every depth. -/
theorem readValue_number (depth : Nat) (negative : Bool) {digits rest : List Char}
    (h : IsWhole digits) :
    readValue depth (signChars negative ++ (digits ++ rest))
      = readNumeral (signChars negative ++ (digits ++ rest)) := by
  obtain ⟨c, others, hcs, hc⟩ := exists_number_eq_cons negative h rest
  obtain ⟨-, -, hbracket, hbrace, hdouble, hsingle, ht, hf⟩ := isSolid_of_number hc
  rw [hcs, readValue_plain depth hbracket hbrace, readPlain]
  · exact fun after he => hdouble (List.cons.inj he).1
  · exact fun after he => hsingle (List.cons.inj he).1
  · exact fun after he => ht (List.cons.inj he).1
  · exact fun after he => hf (List.cons.inj he).1

/-- A string is read as such at every depth. -/
theorem readValue_quoteText (depth : Nat) (s : String) {rest : List Char} (hrest : Stops rest) :
    readValue depth (quoteText s.toList ++ rest) = some (.str s, rest) := by
  have hquotes : ∀ c ∈ rest.head?, c ≠ '"' ∧ c ≠ '\'' := by
    intro c hc
    have hstop := hrest c hc
    constructor <;>
    · rintro rfl
      exact absurd hstop (by decide)
  have hread := readString_quoteText s.toList hquotes
  obtain ⟨c, others, hcs, hc⟩ := exists_quoteText_eq_cons s.toList
  rw [hcs, List.cons_append] at hread ⊢
  rcases hc with rfl | rfl <;>
  · rw [readValue_plain depth (by decide) (by decide), readPlain, hread, String.ofList_toList]
    rfl

/-- A written array begins with a bracket. -/
theorem exists_renderValue_arr (items : List Json) :
    ∃ more, renderValue (.arr items) = '[' :: more := by
  match items with
  | [] => exact ⟨_, rfl⟩
  | [item] => exact ⟨_, rfl⟩
  | first :: second :: others => exact ⟨_, rfl⟩

/-- A written table begins with a brace. -/
theorem exists_renderValue_obj (members : List (String × Json)) :
    ∃ more, renderValue (.obj members) = '\x7b' :: more := by
  match members with
  | [] => exact ⟨_, rfl⟩
  | first :: others => exact ⟨_, rfl⟩

/-- The text begins with a character that is neither a gap nor a closing bracket. -/
def Begins (cs : List Char) : Prop :=
  ∃ c others, cs = c :: others ∧ isSolid c = true ∧ c ≠ ']'

theorem begins_renderValue {j : Json} (h : IsWritable j) : Begins (renderValue j) := by
  cases j with
  | null => exact h.self.elim
  | bool b => cases b <;> exact ⟨_, _, rfl, by decide, by decide⟩
  | int n =>
    obtain ⟨c, others, hcs, hc⟩ :=
      exists_number_eq_cons (decide (n < 0)) (isWhole_toDigits n.natAbs) []
    rw [List.append_nil, ← renderInt_eq] at hcs
    obtain ⟨hsolid, hbracket, -⟩ := isSolid_of_number hc
    exact ⟨c, others, hcs, hsolid, hbracket⟩
  | float x =>
    obtain ⟨whole, fraction, hwhole, -, -, hchars, -⟩ := exists_renderFloat h.self
    obtain ⟨c, others, hcs, hc⟩ := exists_number_eq_cons x.isNegative hwhole ('.' :: fraction)
    obtain ⟨hsolid, hbracket, -⟩ := isSolid_of_number hc
    exact ⟨c, others, hchars.trans hcs, hsolid, hbracket⟩
  | str s =>
    obtain ⟨c, others, hcs, hc⟩ := exists_quoteText_eq_cons s.toList
    refine ⟨c, others, hcs, ?_⟩
    rcases hc with rfl | rfl <;> decide
  | arr items =>
    obtain ⟨more, htext⟩ := exists_renderValue_arr items
    exact ⟨_, _, htext, by decide, by decide⟩
  | obj members =>
    obtain ⟨more, htext⟩ := exists_renderValue_obj members
    exact ⟨_, _, htext, by decide, by decide⟩

/-! ### Arrays -/

theorem of_isSolid {c : Char} (h : isSolid c = true) :
    isSpace c = false ∧ c ≠ '\n' ∧ c ≠ '\r' ∧ c ≠ '#' := by
  simpa [isSolid, and_assoc] using h

/-- There is no gap before an item or a closing bracket. -/
theorem skipGap_cons {c : Char} (h : isSolid c = true) (fuel : Nat) (rest : List Char) :
    skipGap fuel (c :: rest) = some (c :: rest) := by
  obtain ⟨hspace, hnewline, hreturn, hhash⟩ := of_isSolid h
  cases fuel with
  | zero => rfl
  | succ fuel =>
    rw [skipGap, skipSpaces_cons hspace]
    split
    · rename_i he
      exact absurd (List.cons.inj he).1 hhash
    · rw [newline?_cons hnewline hreturn]

/-- A line end and blanks are a gap. -/
theorem skipGap_line {blanks : List Char} (hblanks : ∀ b ∈ blanks, isSpace b = true) {c : Char}
    (h : isSolid c = true) {fuel : Nat} (hfuel : 2 ≤ fuel) (rest : List Char) :
    skipGap fuel ('\n' :: (blanks ++ c :: rest)) = some (c :: rest) := by
  obtain ⟨hspace, hnewline, hreturn, hhash⟩ := of_isSolid h
  obtain ⟨fuel, rfl⟩ := Nat.exists_eq_add_of_le' hfuel
  rw [skipGap, skipSpaces_cons (by decide)]
  show skipGap (fuel + 1) (blanks ++ c :: rest) = some (c :: rest)
  rw [skipGap, skipSpaces_append hblanks, skipSpaces_cons hspace]
  split
  · rename_i he
    exact absurd (List.cons.inj he).1 hhash
  · rw [newline?_cons hnewline hreturn]

/-- What is made of a result that is there under a condition. -/
theorem bind_guarded {α β : Type} (p : Prop) [Decidable p] (a : α) (f : α → Option β) :
    (if p then some a else none).bind f = if p then f a else none := by
  split <;> rfl

section Parts

variable {value : List Char → Option (Json × List Char)} {depth : Nat}

/-- The value is read from its text, whatever ends it, if it has no more than `depth` levels; if it
    has more, it is refused. -/
def ReadsWithin (value : List Char → Option (Json × List Char)) (depth : Nat) (j : Json) : Prop :=
  Begins (renderValue j) ∧ ∀ {rest : List Char}, Stops rest →
    value (renderValue j ++ rest) = if levels j ≤ depth then some (j, rest) else none

theorem stops_cons {c : Char} (h : isStop c = true) (rest : List Char) : Stops (c :: rest) := by
  intro d hd
  obtain rfl : c = d := Option.some.inj hd
  exact h

/-- The only item of an array is read up to the closing bracket. -/
theorem readArray_single {item : Json} (h : ReadsWithin value depth item) {fuel : Nat}
    (rest : List Char) :
    readArray value (fuel + 1) (renderValue item ++ ']' :: rest)
      = if levels item ≤ depth then some ([item], rest) else none := by
  obtain ⟨⟨c, others, hcs, hsolid, hbracket⟩, hread⟩ := h
  have hitem := hread (stops_cons (show isStop ']' = true by decide) rest)
  rw [hcs, List.cons_append] at hitem ⊢
  rw [readArray, skipGap_cons hsolid]
  simp only [Option.bind_eq_bind, Option.bind_some]
  split
  · rename_i he
    exact absurd (List.cons.inj he).1 hbracket
  · rw [hitem, bind_guarded]
    refine if_congr Iff.rfl ?_ rfl
    simp only [skipGap_cons (show isSolid ']' = true by decide), Option.bind_some]
    rfl

/-- Items on lines of their own are read up to the closing bracket. -/
theorem readArray_renderItems {items : List Json} (h : ∀ item ∈ items, ReadsWithin value depth item)
    {fuel : Nat} (hfuel : items.length < fuel) (rest : List Char) :
    readArray value fuel (renderItems items ++ '\n' :: ']' :: rest)
      = if itemLevels items ≤ depth then some (items, rest) else none := by
  have hblank : ∀ b ∈ [' ', ' ', ' ', ' '], isSpace b = true := by simp [isSpace]
  induction items generalizing fuel with
  | nil =>
    obtain ⟨fuel, rfl⟩ : ∃ more, fuel = more + 1 := Nat.exists_eq_succ_of_ne_zero (by omega)
    have hgap : skipGap ('\n' :: ']' :: rest).length ('\n' :: ']' :: rest) = some (']' :: rest) :=
      @skipGap_line [] (fun b hb => absurd hb List.not_mem_nil) ']' (by decide) _ (by simp) rest
    rw [renderItems, List.nil_append, readArray, hgap, itemLevels, if_pos (Nat.zero_le _)]
    rfl
  | cons item others ih =>
    obtain ⟨fuel, rfl⟩ : ∃ more, fuel = more + 1 := Nat.exists_eq_succ_of_ne_zero (by omega)
    have hrest := @ih (fun other hother => h other (List.mem_cons_of_mem _ hother)) fuel
      (Nat.lt_of_succ_lt_succ hfuel)
    obtain ⟨⟨c, more, hcs, hsolid, hbracket⟩, hread⟩ := h item List.mem_cons_self
    have hitem := hread (stops_cons (show isStop ',' = true by decide)
      (renderItems others ++ '\n' :: ']' :: rest))
    rw [hcs, List.cons_append] at hitem
    have hmargin : "\n    ".toList = '\n' :: [' ', ' ', ' ', ' '] := by decide
    have htext : renderItems (item :: others) ++ '\n' :: ']' :: rest
        = '\n' :: ([' ', ' ', ' ', ' ']
          ++ c :: (more ++ ',' :: (renderItems others ++ '\n' :: ']' :: rest))) := by
      rw [renderItems, hmargin, hcs]
      simp only [List.append_assoc, List.cons_append, List.nil_append]
    have hgap : ∀ {n : Nat}, 2 ≤ n → skipGap n ('\n' :: ([' ', ' ', ' ', ' ']
        ++ c :: (more ++ ',' :: (renderItems others ++ '\n' :: ']' :: rest))))
          = some (c :: (more ++ ',' :: (renderItems others ++ '\n' :: ']' :: rest))) :=
      fun hn => skipGap_line hblank hsolid hn _
    rw [htext, readArray, hgap (by simp), itemLevels]
    simp only [Option.bind_eq_bind, Option.bind_some, Nat.max_le]
    -- No item begins with the closing bracket.
    split
    · rename_i he
      exact absurd (List.cons.inj he).1 hbracket
    · rw [hitem, bind_guarded, ite_and]
      refine if_congr Iff.rfl ?_ rfl
      simp only [skipGap_cons (show isSolid ',' = true by decide), Option.bind_some, hrest,
        bind_guarded]
      rfl

/-! ### Inline tables -/

/-- A member is read as an assignment. -/
theorem readAssignment_member {key : String} {j : Json} (h : ReadsWithin value depth j)
    {blanks : List Char} (hblanks : ∀ b ∈ blanks, isSpace b = true) {rest : List Char}
    (hrest : Stops rest) :
    readAssignment value (blanks ++ (quoteKey key ++ (" = ".toList ++ (renderValue j ++ rest))))
      = if levels j ≤ depth then some (assignment (key, j), rest) else none := by
  obtain ⟨⟨c, others, hcs, hsolid, -⟩, hread⟩ := h
  have hmark : " = ".toList = [' ', '=', ' '] := by decide
  have hkey : readKey (blanks ++ (quoteKey key ++ ([' ', '=', ' '] ++ (renderValue j ++ rest))))
      = some (([], key), '=' :: ' ' :: (renderValue j ++ rest)) :=
    @readKey_renderPath [] key ' ' '=' _ _ (by decide) rfl (by decide) blanks hblanks
  have hskip : skipSpaces (' ' :: (renderValue j ++ rest)) = renderValue j ++ rest := by
    rw [hcs, List.cons_append]
    exact (@skipSpaces_append [' '] (List.forall_mem_singleton.mpr (by decide)) _).trans
      (skipSpaces_cons (of_isSolid hsolid).1 _)
  have hexpect : expect '=' ('=' :: ' ' :: (renderValue j ++ rest))
      = some (' ' :: (renderValue j ++ rest)) := rfl
  rw [hmark, readAssignment, hkey]
  simp only [Option.bind_eq_bind, Option.bind_some, hexpect, hskip, hread hrest, bind_guarded]
  rfl

/-- Members with commas between them are read up to the closing brace. -/
theorem readInline_renderMembers {members : List (String × Json)} (hne : members ≠ [])
    (h : ∀ member ∈ members, ReadsWithin value depth member.2) {blanks : List Char}
    (hblanks : ∀ b ∈ blanks, isSpace b = true) {fuel : Nat} (hfuel : members.length ≤ fuel)
    (rest : List Char) :
    readInline value fuel (blanks ++ (renderMembers members ++ ' ' :: '\x7d' :: rest))
      = if memberLevels members ≤ depth then some (members.map assignment, rest) else none := by
  induction members generalizing fuel blanks with
  | nil => exact absurd rfl hne
  | cons member others ih =>
    obtain ⟨fuel, rfl⟩ : ∃ more, fuel = more + 1 :=
      Nat.exists_eq_succ_of_ne_zero (by simp only [List.length_cons] at hfuel; omega)
    obtain ⟨key, j⟩ := member
    have hmember := h (key, j) List.mem_cons_self
    -- The last member has the closing brace behind it, every other one a comma.
    cases others with
    | nil =>
      have hread := @readAssignment_member value depth key j hmember blanks hblanks _
        (stops_cons (show isStop ' ' = true by decide) ('\x7d' :: rest))
      rw [renderMembers, List.append_assoc, List.append_assoc, readInline, hread, memberLevels,
        memberLevels, Nat.max_zero]
      exact bind_guarded _ _ _
    | cons next more =>
      have hrest := @ih (List.cons_ne_nil _ _)
        (fun other hother => h other (List.mem_cons_of_mem _ hother)) [' ']
        (List.forall_mem_singleton.mpr (by decide)) fuel (Nat.le_of_succ_le_succ hfuel)
      have hread := @readAssignment_member value depth key j hmember blanks hblanks _
        (stops_cons (show isStop ',' = true by decide)
          (' ' :: (renderMembers (next :: more) ++ ' ' :: '\x7d' :: rest)))
      have hcomma : ", ".toList = [',', ' '] := by decide
      rw [renderMembers, hcomma, List.append_assoc, List.append_assoc, List.append_assoc,
        List.append_assoc, List.cons_append, List.cons_append, List.nil_append, readInline, hread,
        memberLevels]
      · simp only [Option.bind_eq_bind, bind_guarded, Nat.max_le, ite_and,
          skipSpaces_cons (show isSpace ',' = false by decide)]
        refine if_congr Iff.rfl ?_ rfl
        exact (congrArg (Option.bind · _) hrest).trans (bind_guarded _ _ _)
      · exact List.cons_ne_nil _ _

end Parts

/-! ### Written values -/

/-- The items of an array take more characters than there are items, with what closes it. -/
theorem lt_length_renderItems (items : List Json) (rest : List Char) :
    items.length < (renderItems items ++ '\n' :: ']' :: rest).length + 1 := by
  induction items with
  | nil => exact Nat.succ_pos _
  | cons item others ih =>
    rw [renderItems]
    simp only [List.length_append, List.length_cons] at ih ⊢
    omega

/-- Written members begin with a key. -/
theorem exists_renderMembers_eq (key : String) (j : Json) (others : List (String × Json)) :
    ∃ more, renderMembers ((key, j) :: others) = quoteKey key ++ ' ' :: more
      ∧ (renderMembers others).length ≤ more.length := by
  have hmark : " = ".toList = [' ', '=', ' '] := by decide
  cases others with
  | nil =>
    refine ⟨'=' :: ' ' :: renderValue j, ?_, Nat.zero_le _⟩
    rw [renderMembers, hmark, List.append_assoc]
    rfl
  | cons next rest =>
    refine ⟨'=' :: ' ' :: (renderValue j ++ ", ".toList ++ renderMembers (next :: rest)), ?_, ?_⟩
    · rw [renderMembers, hmark]
      · simp only [List.append_assoc, List.cons_append, List.nil_append]
      · exact List.cons_ne_nil _ _
    · simp only [List.length_append, List.length_cons]
      omega

theorem length_le_renderMembers (members : List (String × Json)) :
    members.length ≤ (renderMembers members).length := by
  induction members with
  | nil => exact Nat.zero_le _
  | cons member others ih =>
    obtain ⟨more, htext, hlength⟩ := exists_renderMembers_eq member.1 member.2 others
    rw [htext]
    simp only [List.length_append, List.length_cons]
    omega

theorem readValue_renderFloat (depth : Nat) {x : Binary64} (hx : x.isFinite = true)
    {rest : List Char} (hrest : Stops rest) :
    readValue depth (renderFloat x ++ rest) = some (.float x, rest) := by
  obtain ⟨whole, fraction, hwhole, -, -, hchars, -⟩ := exists_renderFloat hx
  have hread := readNumeral_renderFloat hx hrest
  rw [hchars, List.append_assoc, List.append_assoc] at hread ⊢
  rw [readValue_number depth _ hwhole, hread]

theorem readValue_renderInt (depth : Nat) {n : Int} (hn : IsSigned64 n) {rest : List Char}
    (hrest : Stops rest) :
    readValue depth (Json.renderInt n ++ rest) = some (.int n, rest) := by
  have hread := readNumeral_renderInt hn hrest
  rw [renderInt_eq, List.append_assoc] at hread ⊢
  rw [readValue_number depth _ (isWhole_toDigits _), hread]

/-- A written array is read back one level deeper than its items. -/
theorem readValue_arr {depth : Nat} {items : List Json}
    (h : ∀ item ∈ items, ReadsWithin (readValue depth) depth item) (rest : List Char) :
    readValue (depth + 1) (renderValue (.arr items) ++ rest)
      = if itemLevels items ≤ depth then some (.arr items, rest) else none := by
  -- Only an array of several items is written on lines of their own.
  match items with
  | [] =>
    rw [itemLevels, if_pos (Nat.zero_le _)]
    rfl
  | [item] =>
    have hread := @readArray_single _ depth _ (h item List.mem_cons_self)
      (renderValue item ++ ']' :: rest).length rest
    rw [renderValue, List.append_assoc, List.cons_append, List.cons_append, List.nil_append,
      readValue, readValueWith]
    simp only [Option.bind_eq_bind, Option.bind_some, hread, itemLevels, Nat.max_zero]
    exact bind_guarded _ _ _
  | first :: second :: others =>
    have hread := readArray_renderItems h (lt_length_renderItems _ rest) rest
    have htext : renderValue (.arr (first :: second :: others)) ++ rest
        = '[' :: (renderItems (first :: second :: others) ++ '\n' :: ']' :: rest) := by
      rw [renderValue]
      · simp only [List.append_assoc, List.cons_append, List.nil_append]
      · exact List.cons_ne_nil _ _
      · exact fun item he => List.cons_ne_nil _ _ (List.cons.inj he).2
    rw [htext, readValue, readValueWith]
    simp only [Option.bind_eq_bind, Option.bind_some, hread]
    exact bind_guarded _ _ _

/-- A written table with different keys is read back one level deeper than its members. -/
theorem readValue_obj {depth : Nat} {members : List (String × Json)}
    (hkeys : (Table.keys members).Nodup)
    (h : ∀ member ∈ members, ReadsWithin (readValue depth) depth member.2) (rest : List Char) :
    readValue (depth + 1) (renderValue (.obj members) ++ rest)
      = if memberLevels members ≤ depth then some (.obj members, rest) else none := by
  match members with
  | [] =>
    rw [memberLevels, if_pos (Nat.zero_le _)]
    rfl
  | (key, j) :: others =>
    have hlength : ((key, j) :: others).length
        ≤ (renderMembers ((key, j) :: others) ++ ' ' :: '\x7d' :: rest).length + 1 := by
      have := length_le_renderMembers ((key, j) :: others)
      rw [List.length_append]
      omega
    have hread := @readInline_renderMembers _ depth _ (List.cons_ne_nil _ _) h []
      (fun b hb => absurd hb List.not_mem_nil) _ hlength rest
    have hassign := @assignAll_plain [] ((key, j) :: others) hkeys
    have htext : renderValue (.obj ((key, j) :: others)) ++ rest
        = '\x7b' :: ' ' :: (renderMembers ((key, j) :: others) ++ ' ' :: '\x7d' :: rest) := by
      rw [renderValue]
      · simp only [List.append_assoc, List.cons_append, List.nil_append]
      · exact List.cons_ne_nil _ _
    obtain ⟨more, hmembers, -⟩ := exists_renderMembers_eq key j others
    obtain ⟨c, tail, hkey, hc⟩ := exists_quoteKey_eq_cons key
    obtain ⟨hspace, hbrace, -⟩ := of_keyStart hc
    have hskip : skipSpaces
        (' ' :: (renderMembers ((key, j) :: others) ++ ' ' :: '\x7d' :: rest))
        = renderMembers ((key, j) :: others) ++ ' ' :: '\x7d' :: rest := by
      rw [hmembers, hkey]
      exact skipSpaces_cons hspace _
    rw [htext, readValue, readValueWith]
    simp only [Option.bind_eq_bind, Option.bind_some, readInlineTable, hskip]
    -- No member begins with the closing brace.
    split
    · rename_i he
      rw [hmembers, hkey] at he
      exact absurd (List.cons.inj he).1 hbrace
    · rw [List.nil_append] at hread
      rw [hread]
      simp only [bind_guarded, hassign, Option.bind_some, List.nil_append, entriesToJson_plain]
      rfl

theorem readValue_bool (depth : Nat) (b : Bool) (rest : List Char) :
    readValue depth (renderValue (.bool b) ++ rest) = some (.bool b, rest) := by
  cases b with
  | false =>
    show readValue depth ('f' :: 'a' :: 'l' :: 's' :: 'e' :: rest) = _
    rw [readValue_plain depth (by decide) (by decide)]
    rfl
  | true =>
    show readValue depth ('t' :: 'r' :: 'u' :: 'e' :: rest) = _
    rw [readValue_plain depth (by decide) (by decide)]
    rfl

/-- **A written value is read back**, if it is not nested deeper than the reader goes. -/
theorem readValue_renderValue {depth : Nat} {j : Json} (h : IsWritable j) {rest : List Char}
    (hrest : Stops rest) :
    readValue depth (renderValue j ++ rest)
      = if levels j ≤ depth then some (j, rest) else none := by
  -- What has no parts has no levels.
  have hleaf : ∀ {leaf : Json}, levels leaf = 0 →
      readValue depth (renderValue leaf ++ rest) = some (leaf, rest) →
      readValue depth (renderValue leaf ++ rest)
        = if levels leaf ≤ depth then some (leaf, rest) else none := by
    intro leaf hzero hread
    rw [hread, hzero, if_pos (Nat.zero_le _)]
  cases j with
  | null => exact h.self.elim
  | bool b => exact hleaf rfl (readValue_bool depth b rest)
  | int n => exact hleaf rfl (readValue_renderInt depth h.self hrest)
  | float x => exact hleaf rfl (readValue_renderFloat depth h.self hrest)
  | str s => exact hleaf rfl (readValue_quoteText depth s hrest)
  | arr items =>
    cases depth with
    | zero =>
      obtain ⟨more, htext⟩ := exists_renderValue_arr items
      rw [htext, levels, if_neg (Nat.not_succ_le_zero _)]
      rfl
    | succ depth =>
      have hitems : ∀ item ∈ items, ReadsWithin (readValue depth) depth item := fun item hitem =>
        have hitem := isWritable_arr.mp h item hitem
        ⟨begins_renderValue hitem, fun hstop => readValue_renderValue hitem hstop⟩
      rw [readValue_arr hitems, levels]
      simp only [Nat.add_le_add_iff_right]
  | obj members =>
    cases depth with
    | zero =>
      obtain ⟨more, htext⟩ := exists_renderValue_obj members
      rw [htext, levels, if_neg (Nat.not_succ_le_zero _)]
      rfl
    | succ depth =>
      obtain ⟨hkeys, hvalues⟩ := isWritable_obj.mp h
      have hmembers : ∀ member ∈ members, ReadsWithin (readValue depth) depth member.2 :=
        fun member hmember => ⟨begins_renderValue (hvalues member hmember),
          fun hstop => readValue_renderValue (hvalues member hmember) hstop⟩
      rw [readValue_obj hkeys hmembers, levels]
      simp only [Nat.add_le_add_iff_right]
termination_by depth

end DocRelay.Toml
