import DocRelay.Proofs.Json.Exact

namespace DocRelay.Json

/-!
# What comes of reading values

Every value of the grammar is read as what it stands for, or refused if it stands for nothing: a
string with half a pair of surrogates, a number that is too large, parts that are nested too deep.
Nothing else is refused.

* `nextItem_piece`, `nextMember_piece` — the way to the next piece, over blanks;
* `foldItems_items`, `foldMembers_members` — one piece after the other;
* `readItems_comesTo`, `readMembers_comesTo` — lists and objects, given how their parts are read;
* `reads_phrase` — values.
-/

/-! ### Between pieces -/

/-- Blanks end a value. -/
theorem Blanks.ends_append (b : Blanks) {rest : List Char} (h : Ends rest) :
    Ends (b.chars ++ rest) := by
  obtain ⟨chars, blank⟩ := b
  cases chars with
  | nil => exact h
  | cons c others =>
    have hc : Cursor.isBlank c = true := blank c List.mem_cons_self
    refine ends_cons ⟨?_, ?_, ?_, ?_⟩ _
    all_goals
      simp only [Cursor.isBlank, Bool.or_eq_true, beq_iff_eq] at hc
      rcases hc with ((rfl | rfl) | rfl) | rfl <;> decide

/-- What follows an item ends it. -/
theorem ends_itemsChars (items : List (Spaced Phrase)) (rest : List Char) :
    Ends (Phrase.itemsChars false items ++ ']' :: rest) := by
  cases items with
  | nil => exact ends_cons (by decide) rest
  | cons item items => exact ends_cons (by decide) _

/-- What follows a member ends it. -/
theorem ends_membersChars (members : List (Entry Phrase)) (rest : List Char) :
    Ends (Phrase.membersChars false members ++ '\x7d' :: rest) := by
  cases members with
  | nil => exact ends_cons (by decide) rest
  | cons m members => exact ends_cons (by decide) _

/-- A number begins with its sign or a digit, and so with no other character. -/
theorem Numeral.exists_chars_cons (n : Numeral) :
    ∃ c rest, n.chars = c :: rest ∧ (c = '-' ∨ c.isDigit = true) ∧
      ∀ d : Char, d ≠ '-' → d.isDigit = false → c ≠ d := by
  have hfirst : ∃ c rest, n.chars = c :: rest ∧ (c = '-' ∨ c.isDigit = true) := by
    rw [Numeral.chars]
    split
    · exact ⟨'-', _, rfl, .inl rfl⟩
    · obtain ⟨c, others, hc, hdigit, -⟩ := n.whole.exists_cons
      exact ⟨c, _, by rw [Numeral.magnitudeChars, hc, List.cons_append], .inr hdigit⟩
  obtain ⟨c, rest, hn, hc⟩ := hfirst
  refine ⟨c, rest, hn, hc, ?_⟩
  rintro d hminus hdigit rfl
  rcases hc with rfl | hc
  · exact hminus rfl
  · rw [hdigit] at hc
    cases hc

/-- A value begins neither with a blank nor with a closing bracket, and only strings begin with a
    quote. -/
theorem Phrase.exists_chars_cons (p : Phrase) :
    ∃ c rest, p.chars = c :: rest ∧ Cursor.isBlank c = false ∧ c ≠ ']' ∧
      (c ≠ '"' ∨ ∃ glyphs, p = .str glyphs) := by
  cases p with
  | null => exact ⟨'n', _, by rw [Phrase.chars], by decide, by decide, .inl (by decide)⟩
  | bool b =>
    cases b <;> exact ⟨_, _, by rw [Phrase.chars], by decide, by decide, .inl (by decide)⟩
  | num n =>
    obtain ⟨c, rest, hc, -, hnone⟩ := n.exists_chars_cons
    refine ⟨c, rest, by rw [Phrase.chars, hc], ?_, hnone ']' (by decide) (by decide),
      .inl (hnone '"' (by decide) (by decide))⟩
    simp [Cursor.isBlank, hnone]
  | str glyphs =>
    exact ⟨'"', _, by rw [Phrase.chars], by decide, by decide, .inr ⟨glyphs, rfl⟩⟩
  | arr inside items =>
    exact ⟨'[', _, by rw [Phrase.chars], by decide, by decide, .inl (by decide)⟩
  | obj inside members =>
    exact ⟨'\x7b', _, by rw [Phrase.chars], by decide, by decide, .inl (by decide)⟩

section Places

variable {lead rest more : List Char} (hlead : ∀ c ∈ lead, Cursor.isBlank c = true) {first : Bool}
  {cur : Cursor}

include hlead

/-- The cursor gets to the next item, over blanks and past the comma before it. -/
theorem nextItem_piece (p : Phrase) (before : Blanks)
    (hcur : cur.rest = lead ++ (comma first ++ (before.chars ++ (p.chars ++ more)))) :
    ∃ start, nextItem first cur = .ok (true, start) ∧ start.rest = p.chars ++ more := by
  obtain ⟨c, others, hc, hblank, hclose, -⟩ := p.exists_chars_cons
  have hhead : p.chars ++ more = c :: (others ++ more) := by rw [hc, List.cons_append]
  have hnone : ∀ d ∈ (p.chars ++ more).head?, Cursor.isBlank d = false := by
    rw [hhead]
    rintro d ⟨⟩
    exact hblank
  -- There is no comma before the first item, so the blanks on either side of it are one.
  cases first with
  | true =>
    have hcur : cur.rest = (lead ++ before.chars) ++ (p.chars ++ more) := by
      rw [hcur, List.append_assoc]
      rfl
    have hskip := Cursor.rest_skipBlanks (fun d hd =>
      (List.mem_append.mp hd).elim (hlead d) (before.blank d)) hnone hcur
    refine ⟨cur.skipBlanks, ?_, hskip⟩
    rw [nextItem]
    simp only [hskip, hhead, beq_iff_eq, hclose, if_false, if_true]
  | false =>
    have hcur : cur.rest = lead ++ (',' :: (before.chars ++ (p.chars ++ more))) := hcur
    have hcomma := Cursor.rest_skipBlanks hlead (by rintro d ⟨⟩; decide) hcur
    have hskip := Cursor.rest_skipBlanks before.blank hnone (Cursor.rest_advance_of_eq hcomma)
    refine ⟨cur.skipBlanks.advance.skipBlanks, ?_, hskip⟩
    rw [nextItem]
    simp only [hcomma, hskip, hhead, beq_iff_eq, Bool.false_eq_true, if_false, if_true,
      show ¬ (',' = ']') by decide]
    split
    · contradiction
    · rename_i h
      exact absurd (List.cons.inj h).1 hclose
    · rfl

/-- Behind the last item. -/
theorem nextItem_end (hcur : cur.rest = lead ++ ']' :: rest) :
    ∃ after, nextItem first cur = .ok (false, after) ∧ after.rest = rest := by
  have hclose := Cursor.rest_skipBlanks hlead (by rintro d ⟨⟩; decide) hcur
  refine ⟨cur.skipBlanks.advance, ?_, Cursor.rest_advance_of_eq hclose⟩
  rw [nextItem]
  simp only [hclose]
  rfl

/-- The cursor gets to the next key, behind its quote. -/
theorem nextMember_piece (before : Blanks)
    (hcur : cur.rest = lead ++ (comma first ++ (before.chars ++ '"' :: more))) :
    ∃ start, nextMember first cur = .ok (true, start) ∧ start.rest = more := by
  -- As with items, only the first key has no comma before it.
  cases first with
  | true =>
    have hcur : cur.rest = (lead ++ before.chars) ++ '"' :: more := by
      rw [hcur, List.append_assoc]
      rfl
    have hquote := Cursor.rest_skipBlanks (fun d hd =>
      (List.mem_append.mp hd).elim (hlead d) (before.blank d)) (by rintro d ⟨⟩; decide) hcur
    refine ⟨cur.skipBlanks.advance, ?_, Cursor.rest_advance_of_eq hquote⟩
    rw [nextMember]
    simp only [hquote]
    rfl
  | false =>
    have hcur : cur.rest = lead ++ (',' :: (before.chars ++ '"' :: more)) := hcur
    have hcomma := Cursor.rest_skipBlanks hlead (by rintro d ⟨⟩; decide) hcur
    have hquote := Cursor.rest_skipBlanks before.blank (by rintro d ⟨⟩; decide)
      (Cursor.rest_advance_of_eq hcomma)
    refine ⟨cur.skipBlanks.advance.skipBlanks.advance, ?_, Cursor.rest_advance_of_eq hquote⟩
    rw [nextMember]
    simp only [hcomma, hquote]
    rfl

/-- Behind the last member. -/
theorem nextMember_end (hcur : cur.rest = lead ++ '\x7d' :: rest) :
    ∃ after, nextMember first cur = .ok (false, after) ∧ after.rest = rest := by
  have hclose := Cursor.rest_skipBlanks hlead (by rintro d ⟨⟩; decide) hcur
  refine ⟨cur.skipBlanks.advance, ?_, Cursor.rest_advance_of_eq hclose⟩
  rw [nextMember]
  simp only [hclose]
  rfl

/-- Past a colon. -/
theorem readColon_gap (hcur : cur.rest = lead ++ ':' :: rest) :
    ∃ after, readColon cur = .ok after ∧ after.rest = rest := by
  have hcolon := Cursor.rest_skipBlanks hlead (by rintro d ⟨⟩; decide) hcur
  refine ⟨cur.skipBlanks.advance, ?_, Cursor.rest_advance_of_eq hcolon⟩
  rw [readColon]
  simp only [hcolon]

end Places

/-- A value behind a colon. -/
theorem Reads.colon {α : Type} {value : Cursor → Except Fault (α × Cursor)} {text : List Char}
    {value? : Option α} (h : Reads value text value?) (gap : Blanks) :
    Reads (fun cur => readColon cur >>= value) (gap.chars ++ ':' :: text) value? := by
  intro cur rest hends hcur
  rw [List.append_assoc] at hcur
  obtain ⟨behind, hcolon, hbehind⟩ := readColon_gap gap.blank hcur
  dsimp only
  rw [hcolon]
  exact h behind rest hends hbehind

/-! ### All pieces -/

/-- **The items of a list** are taken up one by one, each as what it stands for. -/
theorem foldItems_items {σ : Type} {item : σ → Cursor → Except Fault (σ × Cursor)}
    (step? : σ → Phrase → Option σ) {items : List (Spaced Phrase)}
    (hitems : ∀ i ∈ items, ∀ state, Reads (item state) i.core.chars (step? state i.core))
    {fuel : Nat} (hfuel : items.length ≤ fuel) {first : Bool} (state : σ) {lead rest : List Char}
    (hlead : ∀ c ∈ lead, Cursor.isBlank c = true) {cur : Cursor}
    (hcur : cur.rest = lead ++ (Phrase.itemsChars first items ++ ']' :: rest)) :
    ComesTo (foldItems item (fuel + 1) first state cur)
      (items.foldlM (fun state i => step? state i.core) state) rest := by
  induction items generalizing fuel first state lead cur with
  | nil =>
    have hcur : cur.rest = lead ++ ']' :: rest := hcur
    obtain ⟨after, hnext, hafter⟩ : ∃ after, nextItem first cur = .ok (false, after) ∧
        after.rest = rest := nextItem_end hlead hcur
    refine ⟨after, ?_, hafter⟩
    rw [foldItems, hnext]
    rfl
  | cons i items ih =>
    obtain ⟨fuel, rfl⟩ := Nat.exists_eq_add_of_le' hfuel
    have hcur : cur.rest = lead ++ (comma first ++ (i.before.chars ++ (i.core.chars
        ++ (i.after.chars ++ (Phrase.itemsChars false items ++ ']' :: rest))))) := by
      rw [hcur, Phrase.itemsChars, Phrase.spacedChars]
      simp only [List.append_assoc]
    obtain ⟨start, hnext, hstart⟩ := nextItem_piece hlead i.core i.before hcur
    have hitem := hitems i List.mem_cons_self state start _
      (i.after.ends_append (ends_itemsChars items rest)) hstart
    -- This step reads the item, and the others are left to one unit of fuel less.
    have hfold : foldItems item (fuel + items.length + 1 + 1) first state cur
        = item state start >>= fun read =>
          foldItems item (fuel + items.length + 1) false read.1 read.2 := by
      rw [foldItems, hnext]
      rfl
    show ComesTo (foldItems item (fuel + items.length + 1 + 1) first state cur) _ rest
    rw [hfold, List.foldlM_cons]
    exact hitem.bind fun next behind _ hbehind =>
      ih (fun j hj => hitems j (List.mem_cons_of_mem _ hj)) (Nat.le_add_left _ fuel) next
        i.after.blank hbehind

/-- **The members of an object** are taken up one by one, each under its key. -/
theorem foldMembers_members {σ : Type}
    {member : σ → String → Cursor → Except Fault (σ × Cursor)}
    (step? : σ → String → Phrase → Option σ) {members : List (Entry Phrase)}
    (hmembers : ∀ m ∈ members, ∀ state key, Reads (member state key)
      (m.gap.chars ++ ':' :: (m.value.before.chars ++ m.value.core.chars))
      (step? state key m.value.core))
    {fuel : Nat} (hfuel : members.length ≤ fuel) {first : Bool} (state : σ) {lead rest : List Char}
    (hlead : ∀ c ∈ lead, Cursor.isBlank c = true) {cur : Cursor}
    (hcur : cur.rest = lead ++ (Phrase.membersChars first members ++ '\x7d' :: rest)) :
    ComesTo (foldMembers member (fuel + 1) first state cur)
      (members.foldlM (fun state m => (glyphText? m.key).bind fun key =>
        step? state key m.value.core) state) rest := by
  induction members generalizing fuel first state lead cur with
  | nil =>
    have hcur : cur.rest = lead ++ '\x7d' :: rest := hcur
    obtain ⟨after, hnext, hafter⟩ : ∃ after, nextMember first cur = .ok (false, after) ∧
        after.rest = rest := nextMember_end hlead hcur
    refine ⟨after, ?_, hafter⟩
    rw [foldMembers, hnext]
    rfl
  | cons m members ih =>
    obtain ⟨fuel, rfl⟩ := Nat.exists_eq_add_of_le' hfuel
    have hcur : cur.rest = lead ++ (comma first ++ (m.before.chars ++ '"' :: (glyphChars m.key
        ++ ((m.gap.chars ++ ':' :: (m.value.before.chars ++ m.value.core.chars))
          ++ (m.value.after.chars
            ++ (Phrase.membersChars false members ++ '\x7d' :: rest)))))) := by
      rw [hcur, Phrase.membersChars, Phrase.entryChars, Phrase.spacedChars]
      simp only [List.append_assoc, List.cons_append]
    obtain ⟨start, hnext, hstart⟩ := nextMember_piece hlead m.before hcur
    have hkey := readString_glyphChars hstart
    -- This step reads the key and then the value, which is told the key.
    have hfold : foldMembers member (fuel + members.length + 1 + 1) first state cur
        = readString start >>= fun named => member state named.1 named.2 >>= fun read =>
          foldMembers member (fuel + members.length + 1) false read.1 read.2 := by
      rw [foldMembers, hnext]
      rfl
    show ComesTo (foldMembers member (fuel + members.length + 1 + 1) first state cur) _ rest
    rw [hfold, List.foldlM_cons]
    show ComesTo _ (((glyphText? m.key).bind fun key => step? state key m.value.core).bind _) rest
    rw [Option.bind_assoc]
    refine hkey.bind fun key colon _ hcolon => ?_
    have hmember := hmembers m List.mem_cons_self state key colon _
      (m.value.after.ends_append (ends_membersChars members rest)) hcolon
    exact hmember.bind fun next behind _ hbehind =>
      ih (fun n hn => hmembers n (List.mem_cons_of_mem _ hn)) (Nat.le_add_left _ fuel) next
        m.value.after.blank hbehind

/-- There are no more items than characters. -/
theorem length_le_itemsChars (first : Bool) (items : List (Spaced Phrase)) :
    items.length ≤ (Phrase.itemsChars first items).length := by
  induction items generalizing first with
  | nil => exact Nat.zero_le _
  | cons i items ih =>
    have hrest := ih false
    obtain ⟨c, others, hc, -⟩ := i.core.exists_chars_cons
    rw [Phrase.itemsChars, Phrase.spacedChars, hc]
    simp only [List.length_append, List.length_cons]
    omega

/-- There are no more members than characters. -/
theorem length_le_membersChars (first : Bool) (members : List (Entry Phrase)) :
    members.length ≤ (Phrase.membersChars first members).length := by
  induction members generalizing first with
  | nil => exact Nat.zero_le _
  | cons m members ih =>
    have hrest := ih false
    rw [Phrase.membersChars, Phrase.entryChars]
    simp only [List.length_append, List.length_cons]
    omega

/-- Nor are there more than what is left to read, if they stand next. -/
theorem length_le_of_membersChars {first : Bool} {members : List (Entry Phrase)} {cur : Cursor}
    {lead rest : List Char} (hcur : cur.rest = lead ++ (Phrase.membersChars first members ++ rest)) :
    members.length ≤ cur.rest.length := by
  have hle := length_le_membersChars first members
  rw [hcur]
  simp only [List.length_append]
  omega

/-- Values that are put in front of others one by one. -/
theorem foldlM_cons_eq {α β : Type} (value? : α → Option β) (items : List α) (done : List β) :
    items.foldlM (fun done i => (value? i).map (· :: done)) done
      = (items.mapM value?).map fun values => values.reverse ++ done := by
  induction items generalizing done with
  | nil => rfl
  | cons i items ih =>
    rw [List.foldlM_cons, List.mapM_cons]
    cases value? i with
    | none => rfl
    | some value =>
      show items.foldlM _ (value :: done) = _
      rw [ih]
      cases items.mapM value? with
      | none => rfl
      | some values => simp

/-- The same values, turned round in the end. -/
theorem reverse_foldlM_cons {α β : Type} (value? : α → Option β) (items : List α) :
    (items.foldlM (fun done i => (value? i).map (· :: done)) []).map List.reverse
      = items.mapM value? := by
  rw [foldlM_cons_eq]
  cases items.mapM value? <;> simp

/-! ### Values -/

section Parts

variable {value : Cursor → Except Fault (Json × Cursor)} {value? : Phrase → Option Json}

/-- A list is read behind its bracket. -/
theorem readItems_comesTo (inside : Blanks) {items : List (Spaced Phrase)}
    (hitems : ∀ i ∈ items, Reads value i.core.chars (value? i.core)) {cur : Cursor}
    {rest : List Char}
    (hcur : cur.rest = inside.chars ++ (Phrase.itemsChars true items ++ ']' :: rest)) :
    ComesTo (readItems value cur) (items.mapM fun i => value? i.core) rest := by
  have hfuel : items.length ≤ cur.rest.length := by
    have hle := length_le_itemsChars true items
    rw [hcur]
    simp only [List.length_append]
    omega
  rw [readItems, ← reverse_foldlM_cons]
  exact (foldItems_items (fun done p => (value? p).map (· :: done))
    (fun i hi done cur rest hends hcur => (hitems i hi cur rest hends hcur).map (· :: done))
    hfuel [] inside.blank hcur).map List.reverse

/-- An object is read behind its brace. -/
theorem readMembers_comesTo (inside : Blanks) {members : List (Entry Phrase)}
    (hmembers : ∀ m ∈ members,
      Reads value (m.value.before.chars ++ m.value.core.chars) (value? m.value.core))
    {cur : Cursor} {rest : List Char}
    (hcur : cur.rest = inside.chars ++ (Phrase.membersChars true members ++ '\x7d' :: rest)) :
    ComesTo (readMembers value cur) (members.mapM (Entry.value? value?)) rest := by
  have hfuel := length_le_of_membersChars hcur
  have hstep : (fun (done : List (String × Json)) (m : Entry Phrase) =>
      (m.value? value?).map (· :: done)) = fun done m => (glyphText? m.key).bind fun key =>
        (value? m.value.core).map fun v => (key, v) :: done := by
    funext done m
    rw [Entry.value?]
    cases glyphText? m.key with
    | none => rfl
    | some key => cases value? m.value.core <;> rfl
  rw [readMembers, ← reverse_foldlM_cons, hstep]
  refine (foldMembers_members (fun done key p => (value? p).map fun v => (key, v) :: done)
    (fun m hm done key cur rest hends hcur => ?_) hfuel [] inside.blank hcur).map List.reverse
  have hread := (hmembers m hm).colon m.gap cur rest hends hcur
  have hmap := hread.map fun v => (key, v) :: done
  rw [bind_assoc] at hmap
  exact hmap

end Parts

/-- Values are read the same way at every depth, but for their parts. -/
theorem exists_readValueWith (depth : Nat) : ∃ inner, readValue depth = readValueWith inner := by
  cases depth with
  | zero =>
    refine ⟨none, ?_⟩
    funext cur
    rw [readValue]
  | succ depth =>
    refine ⟨some (readValue depth), ?_⟩
    funext cur
    rw [readValue]

/-- What has no parts is read, whatever reads the parts. -/
theorem readValueWith_of_no_parts {p : Phrase} {depth : Nat}
    (hp : (∀ inside items, p ≠ .arr inside items) ∧ ∀ inside members, p ≠ .obj inside members)
    (inner : Option (Cursor → Except Fault (Json × Cursor))) :
    Reads (readValueWith inner) p.chars (p.value? depth) := by
  intro cur rest hends hcur
  -- The first character tells which kind of value follows.
  cases p with
  | null =>
    have hcur : cur.rest = 'n' :: (['u', 'l', 'l'] ++ rest) := by rw [hcur, Phrase.chars]; rfl
    obtain ⟨after, hread, hafter⟩ := readWord_append (Cursor.rest_advance_of_eq hcur)
    rw [Phrase.value?, readValueWith.eq_def]
    simp only [Cursor.skipBlanks_eq_self hcur (by decide), hcur, hread]
    exact ⟨after, rfl, hafter⟩
  | bool b =>
    cases b with
    | true =>
      have hcur : cur.rest = 't' :: (['r', 'u', 'e'] ++ rest) := by rw [hcur, Phrase.chars]; rfl
      obtain ⟨after, hread, hafter⟩ := readWord_append (Cursor.rest_advance_of_eq hcur)
      rw [Phrase.value?, readValueWith.eq_def]
      simp only [Cursor.skipBlanks_eq_self hcur (by decide), hcur, hread]
      exact ⟨after, rfl, hafter⟩
    | false =>
      have hcur : cur.rest = 'f' :: (['a', 'l', 's', 'e'] ++ rest) := by
        rw [hcur, Phrase.chars]
        rfl
      obtain ⟨after, hread, hafter⟩ := readWord_append (Cursor.rest_advance_of_eq hcur)
      rw [Phrase.value?, readValueWith.eq_def]
      simp only [Cursor.skipBlanks_eq_self hcur (by decide), hcur, hread]
      exact ⟨after, rfl, hafter⟩
  | num n =>
    rw [Phrase.chars] at hcur
    have hread := reads_numeral n cur rest hends hcur
    obtain ⟨c, others, hn, hc, hnone⟩ := n.exists_chars_cons
    have hhead : cur.rest = c :: (others ++ rest) := by rw [hcur, hn, List.cons_append]
    have hblank : Cursor.isBlank c = false := by simp [Cursor.isBlank, hnone]
    have hnumber : (c == '-' || c.isDigit) = true := by simpa using hc
    rw [Phrase.value?, readValueWith.eq_def]
    -- A digit or a minus begins no other kind of value.
    simp only [Cursor.skipBlanks_eq_self hhead hblank, hhead, beq_iff_eq,
      hnone '"' (by decide) (by decide), hnone 'n' (by decide) (by decide),
      hnone 't' (by decide) (by decide), hnone 'f' (by decide) (by decide), if_false, hnumber,
      if_true]
    exact hread
  | str glyphs =>
    have hcur : cur.rest = '"' :: (glyphChars glyphs ++ rest) := by rw [hcur, Phrase.chars]; rfl
    have hread := readString_glyphChars (Cursor.rest_advance_of_eq hcur)
    rw [Phrase.value?, readValueWith.eq_def]
    simp only [Cursor.skipBlanks_eq_self hcur (by decide), hcur]
    exact hread.map Json.str
  | arr inside items => exact absurd rfl (hp.1 inside items)
  | obj inside members => exact absurd rfl (hp.2 inside members)

/-- Blanks before a value are passed. -/
theorem Reads.lead {depth : Nat} {p : Phrase} {value? : Option Json}
    (h : Reads (readValue depth) p.chars value?) (before : Blanks) :
    Reads (readValue depth) (before.chars ++ p.chars) value? := by
  intro cur rest hends hcur
  obtain ⟨inner, hinner⟩ := exists_readValueWith depth
  obtain ⟨c, others, hc, hblank, -⟩ := p.exists_chars_cons
  have hhead : p.chars ++ rest = c :: (others ++ rest) := by rw [hc, List.cons_append]
  rw [List.append_assoc] at hcur
  have hskip := Cursor.rest_skipBlanks before.blank (by rw [hhead]; rintro d ⟨⟩; exact hblank) hcur
  have hagain := Cursor.skipBlanks_eq_self (hskip.trans hhead) hblank
  have hread := h cur.skipBlanks rest hends hskip
  rw [hinner, readValueWith.eq_def, hagain] at hread
  rw [hinner, readValueWith.eq_def]
  exact hread

/-- **Values** are read as what they stand for, and refused if they stand for nothing. -/
theorem reads_phrase (depth : Nat) (p : Phrase) :
    Reads (readValue depth) p.chars (p.value? depth) := by
  -- What has no parts is read in the same way at every depth.
  have whole : ∀ depth {p : Phrase}, (∀ inside items, p ≠ .arr inside items) →
      (∀ inside members, p ≠ .obj inside members) →
      Reads (readValue depth) p.chars (p.value? depth) := by
    intro depth p harr hobj
    obtain ⟨inner, hinner⟩ := exists_readValueWith depth
    rw [hinner]
    exact readValueWith_of_no_parts ⟨harr, hobj⟩ inner
  induction depth generalizing p with
  | zero =>
    cases p with
    | arr inside items =>
      intro cur rest hends hcur
      have hcur : cur.rest = '[' :: (inside.chars
          ++ (Phrase.itemsChars true items ++ [']']) ++ rest) := by
        rw [hcur, Phrase.chars]
        rfl
      -- There is no depth left for what is inside.
      refine ⟨.malformed .tooDeep cur.ahead, ?_⟩
      rw [readValue, readValueWith.eq_def]
      simp only [Cursor.skipBlanks_eq_self hcur (by decide), hcur]
      rfl
    | obj inside members =>
      intro cur rest hends hcur
      have hcur : cur.rest = '\x7b' :: (inside.chars
          ++ (Phrase.membersChars true members ++ ['\x7d']) ++ rest) := by
        rw [hcur, Phrase.chars]
        rfl
      refine ⟨.malformed .tooDeep cur.ahead, ?_⟩
      rw [readValue, readValueWith.eq_def]
      simp only [Cursor.skipBlanks_eq_self hcur (by decide), hcur]
      rfl
    | _ => exact whole _ (by simp) (by simp)
  | succ depth ih =>
    cases p with
    | arr inside items =>
      intro cur rest hends hcur
      have hcur : cur.rest = '[' :: (inside.chars ++ (Phrase.itemsChars true items
          ++ ']' :: rest)) := by
        rw [hcur, Phrase.chars]
        simp
      have hread := readItems_comesTo inside (fun i _ => ih i.core) (Cursor.rest_advance_of_eq hcur)
      rw [Phrase.value?, readValue, readValueWith.eq_def]
      simp only [Cursor.skipBlanks_eq_self hcur (by decide), hcur]
      exact hread.map Json.arr
    | obj inside members =>
      intro cur rest hends hcur
      have hcur : cur.rest = '\x7b' :: (inside.chars ++ (Phrase.membersChars true members
          ++ '\x7d' :: rest)) := by
        rw [hcur, Phrase.chars]
        simp
      have hread := readMembers_comesTo inside (fun m _ => (ih m.value.core).lead m.value.before)
        (Cursor.rest_advance_of_eq hcur)
      rw [Phrase.value?, readValue, readValueWith.eq_def]
      simp only [Cursor.skipBlanks_eq_self hcur (by decide), hcur]
      exact hread.map Json.obj
    | _ => exact whole _ (by simp) (by simp)

end DocRelay.Json
