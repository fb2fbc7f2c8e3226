import DocRelay.Json.ReadTagged
import DocRelay.Proofs.Json.Reading

namespace DocRelay.Json

/-!
# What comes of reading tagged records

An object that names its own kind in exactly one member is read as that kind and its other
members, if all of them stand for something, and is refused otherwise.

* `Entry.isNamed`, `Phrase.spells` — keys and strings that spell a text;
* `variant?`, `taggedStep?` — what comes of the tag, and of one member more;
* `tagged?`, `tagged?_of_once` — what comes of all members;
* `toOption_readRecord` — a text that is an object.
-/

/-! ### Refusals -/

/-- The characters behind blanks are among the characters. -/
theorem Cursor.rest_skipBlanks_subset (cur : Cursor) : cur.skipBlanks.rest ⊆ cur.rest := by
  rw [Cursor.skipBlanks, Cursor.skipWhile, Cursor.rest_advanceBy]
  exact List.drop_subset _ _

/-- A value of the wrong type is refused, whatever it is. -/
theorem exists_readScalarMisfit_eq_error {α : Type} (expected : String) (cur : Cursor) :
    ∃ fault, readScalarMisfit (α := α) expected cur = .error fault := by
  rw [readScalarMisfit.eq_def]
  dsimp only
  split
  · exact ⟨_, rfl⟩
  · exact ⟨_, rfl⟩
  · cases readValueWith none cur.skipBlanks with
    | error fault => exact ⟨fault, rfl⟩
    | ok read => exact ⟨_, rfl⟩

/-- Without a bracket there is no record. -/
theorem exists_readTagged_eq_error {title tag : String} {variants : List String} {cur : Cursor}
    (h : ∀ c ∈ cur.rest, c ≠ '\x7b' ∧ c ≠ '[') :
    ∃ fault, readTagged title tag variants cur = .error fault := by
  have hnone : ∀ c rest, cur.skipBlanks.rest = c :: rest → c ≠ '\x7b' ∧ c ≠ '[' := by
    intro c rest hrest
    exact h c (cur.rest_skipBlanks_subset (hrest ▸ List.mem_cons_self))
  rw [readTagged.eq_def]
  dsimp only
  split
  · rename_i rest hrest
    exact absurd rfl (hnone _ rest hrest).1
  · rename_i rest hrest
    exact absurd rfl (hnone _ rest hrest).2
  · exact exists_readScalarMisfit_eq_error _ _

/-! ### Names -/

/-- The key of the member spells the name. -/
def Entry.isNamed {α : Type} (m : Entry α) (name : String) : Bool :=
  glyphText? m.key == some name

/-- The value is a string that spells the text. -/
def Phrase.spells (text : String) : Phrase → Bool
  | .str glyphs => glyphText? glyphs == some text
  | _ => false

/-- A string stands for its text, however deep it is nested. -/
theorem Phrase.value?_of_spells {text : String} {p : Phrase} (h : p.spells text = true)
    (depth : Nat) : p.value? depth = some (.str text) := by
  cases p with
  | str glyphs => rw [Phrase.value?, beq_iff_eq.mp h]; rfl
  | _ => cases h

/-! ### The tag -/

/-- The kind that a value names. -/
def variant? (variants : List String) : Phrase → Option String
  | .str glyphs => (glyphText? glyphs).bind fun name =>
    if variants.contains name then some name else none
  | _ => none

/-- **The tag** of a record is read as the kind that it names, and refused if it names none. -/
theorem reads_variant (variants : List String) (before : Blanks) (p : Phrase) :
    Reads (readVariant variants) (before.chars ++ p.chars) (variant? variants p) := by
  intro cur rest hends hcur
  obtain ⟨c, others, hc, hblank, -, hquote⟩ := p.exists_chars_cons
  have hhead : p.chars ++ rest = c :: (others ++ rest) := by rw [hc, List.cons_append]
  rw [List.append_assoc] at hcur
  have hskip := Cursor.rest_skipBlanks before.blank (by rw [hhead]; rintro d ⟨⟩; exact hblank) hcur
  rw [readVariant]
  dsimp only
  cases p with
  | str glyphs =>
    have hskip : cur.skipBlanks.rest = '"' :: (glyphChars glyphs ++ rest) := by
      rw [hskip, Phrase.chars]
      rfl
    rw [hskip]
    refine (readString_glyphChars (Cursor.rest_advance_of_eq hskip)).bind
      fun name after _ hafter => ?_
    dsimp only
    split
    · exact ⟨after, rfl, hafter⟩
    · exact ⟨_, rfl⟩
  | _ =>
    -- What does not begin with a quote is a value of the wrong type.
    have hother : c ≠ '"' := hquote.resolve_right (by simp)
    rw [hskip, hhead]
    split
    · contradiction
    · rename_i heq
      exact absurd (List.cons.inj heq).1 hother
    · exact exists_readScalarMisfit_eq_error _ _

/-! ### Members -/

section Members

variable (tag : String) (variants : List String) (value? : Phrase → Option Json)

/-- One member more: the kind, as far as it is known, and the other members, the last one
    first. -/
def taggedStep? (state : Option String × List (String × Json)) (key : String) (p : Phrase) :
    Option (Option String × List (String × Json)) :=
  if key == tag then
    if state.1.isSome then none else (variant? variants p).map fun name => (some name, state.2)
  else (value? p).map fun v => (state.1, (key, v) :: state.2)

/-- What comes of members, from a state on. -/
def taggedFrom? (state : Option String × List (String × Json)) (members : List (Entry Phrase)) :
    Option (Option String × List (String × Json)) :=
  members.foldlM (fun state m => (glyphText? m.key).bind fun key =>
    taggedStep? tag variants value? state key m.value.core) state

/-- The kind that the members name, and the other members. -/
def tagged? (members : List (Entry Phrase)) : Option (String × Json) :=
  (taggedFrom? tag variants value? (none, []) members).bind fun state =>
    state.1.map fun name => (name, .obj state.2.reverse)

variable {tag variants value?}

/-- **The members of a record** are read as the kind that they name and the other members. -/
theorem readTaggedMembers_comesTo {value : Cursor → Except Fault (Json × Cursor)}
    (inside : Blanks) {members : List (Entry Phrase)}
    (hmembers : ∀ m ∈ members,
      Reads value (m.value.before.chars ++ m.value.core.chars) (value? m.value.core))
    {cur : Cursor} {rest : List Char}
    (hcur : cur.rest = inside.chars ++ (Phrase.membersChars true members ++ '\x7d' :: rest)) :
    ComesTo (readTaggedMembers tag variants value cur) (tagged? tag variants value? members)
      rest := by
  have hfuel := length_le_of_membersChars hcur
  rw [readTaggedMembers, tagged?]
  refine (foldMembers_members (taggedStep? tag variants value?) (fun m hm state key => ?_) hfuel
    (none, []) inside.blank hcur).bind fun state after _ hafter => ?_
  · intro cur rest hends hcur
    obtain ⟨kind, others⟩ := state
    rw [taggedStep?]
    dsimp only
    by_cases htag : (key == tag) = true
    · rw [if_pos htag, if_pos htag]
      -- A kind that is named twice is a fault, even if it is the same one.
      by_cases htwice : kind.isSome = true
      · rw [if_pos htwice, if_pos htwice, Cursor.misfitBehind]
        split <;> exact ⟨_, rfl⟩
      · rw [if_neg htwice, if_neg htwice]
        have hread := (reads_variant variants m.value.before m.value.core).colon m.gap cur rest
          hends hcur
        have hmap := hread.map fun name => (some name, others)
        rw [bind_assoc] at hmap
        exact hmap
    · -- Any other member is kept with its value.
      rw [if_neg htag, if_neg htag]
      have hread := (hmembers m hm).colon m.gap cur rest hends hcur
      have hmap := hread.map fun v => (kind, (key, v) :: others)
      rw [bind_assoc] at hmap
      exact hmap
  · obtain ⟨kind, others⟩ := state
    cases kind with
    | none => exact ⟨_, rfl⟩
    | some name => exact ⟨after, rfl, hafter⟩

/-- The members of a name are as many as their values. -/
theorem countP_values {members : List (Entry Phrase)} {values : List (String × Json)}
    (h : members.mapM (Entry.value? value?) = some values) (name : String) :
    values.countP (·.1 == name) = members.countP (·.isNamed name) := by
  induction members generalizing values with
  | nil =>
    obtain rfl := Option.some.inj h
    rfl
  | cons m members ih =>
    rw [List.mapM_cons] at h
    obtain ⟨⟨key, v⟩, hm, h⟩ := Option.bind_eq_some_iff.mp h
    obtain ⟨others, hothers, h⟩ := Option.bind_eq_some_iff.mp h
    obtain rfl := Option.some.inj h
    obtain ⟨spelled, hkey, hm⟩ := Option.bind_eq_some_iff.mp hm
    obtain ⟨other, -, hm⟩ := Option.bind_eq_some_iff.mp hm
    cases hm
    rw [List.countP_cons, List.countP_cons, ih hothers, Entry.isNamed, hkey]
    rfl

/-- Members that are not the tag are taken up one by one. -/
theorem taggedFrom?_of_untagged {members : List (Entry Phrase)}
    (h : ∀ m ∈ members, ¬m.isNamed tag = true) (kind : Option String)
    (done : List (String × Json)) :
    taggedFrom? tag variants value? (kind, done) members
      = (members.mapM (Entry.value? value?)).map fun values => (kind, values.reverse ++ done) := by
  induction members generalizing done with
  | nil => rfl
  | cons m members ih =>
    have hothers := ih fun n hn => h n (List.mem_cons_of_mem _ hn)
    have hname := h m List.mem_cons_self
    rw [Entry.isNamed] at hname
    rw [taggedFrom?, List.foldlM_cons, List.mapM_cons, Entry.value?]
    cases hkey : glyphText? m.key with
    | none => rfl
    | some key =>
      -- The member names no kind, so it joins the others.
      have hother : ¬(key == tag) = true := by
        intro he
        rw [hkey, beq_iff_eq.mp he] at hname
        exact hname (beq_self_eq_true _)
      rw [Option.bind_some, taggedStep?, if_neg hother]
      cases value? m.value.core with
      | none => rfl
      | some v =>
        show taggedFrom? tag variants value? (kind, (key, v) :: done) members = _
        rw [hothers]
        cases members.mapM (Entry.value? value?) with
        | none => rfl
        | some values => simp

/-- The tag is not among the members that are kept. -/
theorem taggedFrom?_cons {m : Entry Phrase} {kind : String} (named : m.isNamed tag = true)
    (hkind : variants.contains kind = true) (spells : m.value.core.spells kind = true)
    (done : List (String × Json)) (members : List (Entry Phrase)) :
    taggedFrom? tag variants value? (none, done) (m :: members)
      = taggedFrom? tag variants value? (some kind, done) members := by
  have hvariant : variant? variants m.value.core = some kind := by
    cases hp : m.value.core with
    | str glyphs =>
      rw [hp] at spells
      rw [variant?, beq_iff_eq.mp spells, Option.bind_some, if_pos hkind]
    | _ =>
      rw [hp] at spells
      cases spells
  rw [taggedFrom?, List.foldlM_cons, beq_iff_eq.mp named, Option.bind_some, taggedStep?,
    if_pos (beq_self_eq_true tag), hvariant]
  rfl

/-- The tag is all that is not kept of members, if they name no kind. -/
theorem filter_values {members : List (Entry Phrase)} {values : List (String × Json)}
    (h : ∀ m ∈ members, ¬m.isNamed tag = true)
    (hvalues : members.mapM (Entry.value? value?) = some values) :
    values.filter (·.1 != tag) = values := by
  have hcount := countP_values hvalues tag
  rw [List.countP_eq_zero.mpr h, List.countP_eq_zero] at hcount
  refine List.filter_eq_self.mpr fun v hv => ?_
  simpa using hcount v hv

/-- **An object that names its kind once** is read as that kind and its other members, if all its
    members stand for something. -/
theorem tagged?_of_once {members : List (Entry Phrase)} {m : Entry Phrase} {kind : String}
    (once : members.filter (·.isNamed tag) = [m]) (hkind : variants.contains kind = true)
    (spells : m.value.core.spells kind = true) (hvalue : value? m.value.core = some (.str kind)) :
    tagged? tag variants value? members
      = (members.mapM (Entry.value? value?)).map fun values =>
        (kind, .obj (values.filter (·.1 != tag))) := by
  obtain ⟨front, back, rfl, hfront, named, hback⟩ := List.filter_eq_cons_iff.mp once
  have hback : ∀ n ∈ back, ¬n.isNamed tag = true := List.filter_eq_nil_iff.mp hback
  have hm : m.value? value? = some (tag, .str kind) := by
    rw [Entry.value?, beq_iff_eq.mp named, hvalue]
    rfl
  -- The members stand before the one that names the kind, or behind it.
  rw [tagged?, taggedFrom?, List.foldlM_append]
  show (((taggedFrom? tag variants value? (none, []) front).bind fun state =>
    taggedFrom? tag variants value? state (m :: back)).bind _) = _
  rw [taggedFrom?_of_untagged hfront, List.mapM_append, List.mapM_cons, hm]
  cases hf : front.mapM (Entry.value? value?) with
  | none => rfl
  | some before =>
    rw [Option.map_some, Option.bind_some, taggedFrom?_cons named hkind spells,
      taggedFrom?_of_untagged hback]
    cases hb : back.mapM (Entry.value? value?) with
    | none => rfl
    | some behind =>
      have hf := filter_values hfront hf
      have hb := filter_values hback hb
      simp [hf, hb]

end Members

/-! ### Texts -/

/-- Nothing follows but blanks. -/
theorem readEnd_blanks {cur : Cursor} (h : ∀ c ∈ cur.rest, Cursor.isBlank c = true) :
    readEnd cur = .ok () := by
  have hrest : cur.skipBlanks.rest = [] :=
    Cursor.rest_skipBlanks h (fun c hc => by cases hc) (List.append_nil _).symm
  rw [readEnd]
  simp [hrest]

/-- **A text that is an object** gives the record that is built from the kind that it names and its
    other members. -/
theorem toOption_readRecord {α : Type} (title tag : String) (variants : List String)
    (build : String → Json → Except Misfit α) {line : Spaced Phrase} {inside : Blanks}
    {members : List (Entry Phrase)} (hcore : line.core = .obj inside members) {text : String}
    (htext : text.toList = line.chars) :
    (readRecord title tag variants build text).toOption
      = (tagged? tag variants (Phrase.value? (depthLimit - 1)) members).bind fun tagged =>
        (build tagged.1 tagged.2).toOption := by
  have hstart : (Cursor.start text.toList).rest
      = line.before.chars ++ ('{' :: (inside.chars ++ (Phrase.membersChars true members
          ++ '}' :: line.after.chars))) := by
    show text.toList = _
    rw [htext, Spaced.chars, Phrase.spacedChars, hcore, Phrase.chars]
    simp
  have hbrace := Cursor.rest_skipBlanks line.before.blank (by rintro d ⟨⟩; decide) hstart
  -- The text is an object, so behind the brace there are its members.
  have hread : ComesTo
      (readTaggedMembers tag variants (readValue (depthLimit - 1))
        (Cursor.start text.toList).skipBlanks.advance)
      (tagged? tag variants (Phrase.value? (depthLimit - 1)) members) line.after.chars :=
    readTaggedMembers_comesTo inside
      (fun m _ => (reads_phrase (depthLimit - 1) m.value.core).lead m.value.before)
      (Cursor.rest_advance_of_eq hbrace)
  rw [readRecord, readTagged, hbrace]
  dsimp only
  cases htagged : tagged? tag variants (Phrase.value? (depthLimit - 1)) members with
  | none =>
    rw [htagged] at hread
    obtain ⟨fault, hfault⟩ := hread
    rw [hfault]
    rfl
  | some tagged =>
    rw [htagged] at hread
    obtain ⟨after, hok, hafter⟩ := hread
    -- Nothing but blanks is left.
    have hend : readEnd after = .ok () := by
      refine readEnd_blanks ?_
      rw [hafter]
      exact line.after.blank
    obtain ⟨kind, content⟩ := tagged
    rw [hok]
    simp only [bind, Except.bind, Option.bind]
    cases build kind content with
    | error cause => rfl
    | ok value =>
      dsimp only
      rw [hend]
      rfl

end DocRelay.Json
