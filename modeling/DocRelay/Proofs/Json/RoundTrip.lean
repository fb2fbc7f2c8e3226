import DocRelay.Proofs.Json.Texts
import DocRelay.Proofs.Json.Tokens

namespace DocRelay.Json

/-!
# Reading back what was written: values and records

A text carries every value whose numbers are integers of 64 bits and that is not nested too deep:
what is written for it is of the grammar and stands for it, so that it is read back as it was, its
members in the order in which they were written.

* `IsPortable` — what a text carries;
* `separated` — the pieces of a list or an object with commas between them;
* `exists_phrase` — the text of a value is of the grammar;
* `readWithin_compact` — values are read back;
* `le_of_mem_render` — no control is written;
* `readRecord_compact` — records that name their own kind are read back.
-/

/-- A value that a text carries: its numbers are integers of 64 bits, and it is nested at most
    `depth` levels deep. -/
def IsPortable : Nat → Json → Prop
  | _, .int n => IsWord n
  | _, .float _ => False
  | depth + 1, .arr items => ∀ item ∈ items, IsPortable depth item
  | depth + 1, .obj members => ∀ member ∈ members, IsPortable depth member.2
  | 0, .arr _ => False
  | 0, .obj _ => False
  | _, _ => True

/-- **Induction over what a text carries**: words, integers and strings, and lists and objects of
    what is less deep. -/
theorem IsPortable.induction {motive : Nat → Json → Prop} (null : ∀ depth, motive depth .null)
    (bool : ∀ depth b, motive depth (.bool b)) (int : ∀ depth n, IsWord n → motive depth (.int n))
    (str : ∀ depth s, motive depth (.str s))
    (arr : ∀ depth items, (∀ item ∈ items, IsPortable depth item ∧ motive depth item) →
      motive (depth + 1) (.arr items))
    (obj : ∀ depth members, (∀ m ∈ members, IsPortable depth m.2 ∧ motive depth m.2) →
      motive (depth + 1) (.obj members))
    {depth : Nat} {j : Json} (h : IsPortable depth j) : motive depth j := by
  -- Lists and objects use up depth, so that is what the induction is on.
  induction depth generalizing j with
  | zero =>
    cases j with
    | null => exact null 0
    | bool b => exact bool 0 b
    | int n => exact int 0 n h
    | float x => exact h.elim
    | str s => exact str 0 s
    | arr items => exact h.elim
    | obj members => exact h.elim
  | succ depth ih =>
    cases j with
    | null => exact null _
    | bool b => exact bool _ b
    | int n => exact int _ n h
    | float x => exact h.elim
    | str s => exact str _ s
    | arr items => exact arr depth items fun item hi => ⟨h item hi, ih (h item hi)⟩
    | obj members => exact obj depth members fun m hm => ⟨h m hm, ih (h m hm)⟩

/-! ### Pieces and commas -/

/-- The pieces with a comma before each, the first one of all apart. -/
def separated : Bool → List (List Char) → List Char
  | _, [] => []
  | true, piece :: pieces => piece ++ separated false pieces
  | false, piece :: pieces => ',' :: (piece ++ separated false pieces)

/-- The text of a member. -/
def renderMember (member : String × Json) : List Char :=
  quote member.1 ++ ':' :: render member.2

/-- The items of a list are pieces. -/
theorem renderItems_eq (items : List Json) :
    renderItems items = separated true (items.map render) := by
  suffices h : ∀ item rest, renderItems (item :: rest)
      = render item ++ separated false (rest.map render) by
    cases items with
    | nil => rfl
    | cons item rest => exact h item rest
  intro item rest
  induction rest generalizing item with
  | nil => simp [renderItems, separated]
  | cons next rest ih =>
    rw [renderItems, ih next]
    · rfl
    · simp

/-- The members of an object are pieces. -/
theorem renderMembers_eq (members : List (String × Json)) :
    renderMembers members = separated true (members.map renderMember) := by
  suffices h : ∀ member rest, renderMembers (member :: rest)
      = renderMember member ++ separated false (rest.map renderMember) by
    cases members with
    | nil => rfl
    | cons member rest => exact h member rest
  rintro ⟨key, value⟩ rest
  induction rest generalizing key value with
  | nil => simp [renderMembers, renderMember, separated]
  | cons next rest ih =>
    rw [renderMembers, ih next.1 next.2]
    · simp [renderMember, separated]
    · simp

/-! ### Values -/

/-- A value without blanks around it. -/
def Phrase.bare (p : Phrase) : Spaced Phrase := ⟨.empty, p, .empty⟩

/-- The characters of a value without blanks around it. -/
theorem Phrase.chars_bare (p : Phrase) : p.bare.chars = p.chars := by
  rw [Spaced.chars, bare, spacedChars, Blanks.empty, List.append_nil]
  rfl

/-- The items of a list are written as items that stand for them. -/
theorem exists_items {depth : Nat} {items : List Json}
    (h : ∀ j ∈ items, ∃ p : Phrase, p.chars = render j ∧ p.value? depth = some j) :
    ∃ phrases : List (Spaced Phrase),
      (∀ first, Phrase.itemsChars first phrases = separated first (items.map render)) ∧
      (phrases.mapM fun i => i.core.value? depth) = some items := by
  induction items with
  | nil =>
    exact ⟨[], fun first => by cases first <;> rfl, rfl⟩
  | cons j items ih =>
    obtain ⟨p, hchars, hvalue⟩ := h j List.mem_cons_self
    obtain ⟨phrases, hitems, hvalues⟩ := ih fun i hi => h i (List.mem_cons_of_mem _ hi)
    refine ⟨p.bare :: phrases, fun first => ?_, ?_⟩
    · rw [Phrase.itemsChars, Phrase.bare, Phrase.spacedChars, hitems, hchars]
      cases first <;> simp [comma, separated, Blanks.empty]
    · rw [List.mapM_cons, hvalues]
      show (p.value? depth).bind _ = _
      rw [hvalue]
      rfl

/-- A member is written as a member that stands for it. -/
theorem exists_entry {depth : Nat} {m : String × Json} {p : Phrase} (hchars : p.chars = render m.2)
    (hvalue : p.value? depth = some m.2) :
    ∃ entry : Entry Phrase, Phrase.entryChars entry = renderMember m ∧
      entry.value? (Phrase.value? depth) = some m ∧ entry.isNamed m.1 = true ∧
      entry.value.core = p := by
  obtain ⟨glyphs, hglyphs, hkey⟩ := exists_glyphs m.1
  refine ⟨⟨.empty, glyphs, .empty, p.bare⟩, ?_, ?_, beq_iff_eq.mpr hkey, rfl⟩
  · rw [Phrase.entryChars, Phrase.bare, Phrase.spacedChars, hchars, renderMember, ← hglyphs]
    simp [Blanks.empty]
  · rw [Entry.value?]
    show (glyphText? glyphs).bind (fun key => (p.value? depth).bind _) = _
    rw [hkey, hvalue]
    rfl

/-- The members of an object are written as members that stand for them. -/
theorem exists_members {depth : Nat} {members : List (String × Json)}
    (h : ∀ m ∈ members, ∃ p : Phrase, p.chars = render m.2 ∧ p.value? depth = some m.2) :
    ∃ entries : List (Entry Phrase),
      (∀ first, Phrase.membersChars first entries
        = separated first (members.map renderMember)) ∧
      entries.mapM (Entry.value? (Phrase.value? depth)) = some members := by
  induction members with
  | nil => exact ⟨[], fun first => by cases first <;> rfl, rfl⟩
  | cons m members ih =>
    obtain ⟨p, hphrase, hpvalue⟩ := h m List.mem_cons_self
    obtain ⟨entry, hchars, hvalue, -⟩ := exists_entry hphrase hpvalue
    obtain ⟨entries, hmembers, hvalues⟩ := ih fun n hn => h n (List.mem_cons_of_mem _ hn)
    refine ⟨entry :: entries, fun first => ?_, ?_⟩
    · rw [Phrase.membersChars, hmembers, hchars]
      cases first <;> simp [comma, separated]
    · rw [List.mapM_cons, hvalue, hvalues]
      rfl

/-- **The text of a value** is of the grammar, and stands for the value. -/
theorem exists_phrase {depth : Nat} {j : Json} (h : IsPortable depth j) :
    ∃ p : Phrase, p.chars = render j ∧ p.value? depth = some j := by
  refine h.induction
    (motive := fun depth j => ∃ p : Phrase, p.chars = render j ∧ p.value? depth = some j)
    (fun depth => ⟨.null, by rw [Phrase.chars]; rfl, by rw [Phrase.value?]⟩)
    (fun depth b => ⟨.bool b, by cases b <;> rw [Phrase.chars] <;> rfl, by rw [Phrase.value?]⟩)
    (fun depth n hn => ?_) (fun depth s => ?_) (fun depth items hitems => ?_)
    (fun depth members hmembers => ?_)
  · obtain ⟨numeral, hchars, hvalue⟩ := exists_numeral hn
    exact ⟨.num numeral, by rw [Phrase.chars, hchars, render], by rw [Phrase.value?, hvalue]⟩
  · obtain ⟨glyphs, hchars, htext⟩ := exists_glyphs s
    exact ⟨.str glyphs, by rw [Phrase.chars, hchars, render], by rw [Phrase.value?, htext]; rfl⟩
  · obtain ⟨phrases, hchars, hvalues⟩ := exists_items fun j hj => (hitems j hj).2
    refine ⟨.arr .empty phrases, ?_, ?_⟩
    · rw [Phrase.chars, hchars, render, renderItems_eq]
      rfl
    · rw [Phrase.value?, hvalues]
      rfl
  · obtain ⟨entries, hchars, hvalues⟩ := exists_members fun m hm => (hmembers m hm).2
    refine ⟨.obj .empty entries, ?_, ?_⟩
    · rw [Phrase.chars, hchars, render, renderMembers_eq]
      rfl
    · rw [Phrase.value?, hvalues]
      rfl

/-- **A value is read back** from its text. -/
theorem readWithin_compact {depth : Nat} {j : Json} (h : IsPortable depth j) :
    readWithin depth j.compact = .ok j := by
  obtain ⟨p, hchars, hvalue⟩ := exists_phrase h
  have htext : j.compact.toList = p.bare.chars := by
    rw [compact, String.toList_ofList, Phrase.chars_bare, hchars]
  exact eq_ok_of_toOption ((toOption_readWithin htext depth).trans hvalue)

/-! ### No controls -/

/-- Characters that are checked one by one are no controls. -/
theorem le_of_all {text : List Char} (h : text.all (fun c => decide (0x20 ≤ c.toNat)) = true) :
    ∀ c ∈ text, 0x20 ≤ c.toNat :=
  fun c hc => of_decide_eq_true (List.all_eq_true.mp h c hc)

/-- No control is written for a character. -/
theorem le_of_mem_escapeChar {c d : Char} (h : d ∈ escapeChar c) : 0x20 ≤ d.toNat := by
  have hhex : ∀ n < 16, 0x20 ≤ (Nat.digitChar n).toNat := by decide
  rw [escapeChar] at h
  -- The seven characters that have a short escape come first.
  iterate 7
    split at h
    · exact le_of_all rfl d h
  split at h
  · rename_i hcontrol
    simp only [List.mem_cons, List.not_mem_nil, or_false] at h
    rcases h with rfl | rfl | rfl | rfl | rfl | rfl
    · decide
    · decide
    · decide
    · decide
    · exact hhex _ (by omega)
    · exact hhex _ (by omega)
  · rename_i hcontrol
    rw [List.mem_singleton.mp h]
    omega

/-- No control stands in quotes. -/
theorem le_of_mem_quote {s : String} {c : Char} (h : c ∈ quote s) : 0x20 ≤ c.toNat := by
  simp only [quote, List.cons_append, List.mem_cons, List.mem_append, List.mem_flatMap,
    List.not_mem_nil, or_false] at h
  rcases h with rfl | ⟨d, -, h⟩ | rfl
  · decide
  · exact le_of_mem_escapeChar h
  · decide

/-- Between pieces there are only commas. -/
theorem mem_separated {first : Bool} {pieces : List (List Char)} {c : Char}
    (h : c ∈ separated first pieces) : c = ',' ∨ ∃ piece ∈ pieces, c ∈ piece := by
  induction pieces generalizing first with
  | nil => cases first <;> cases h
  | cons piece pieces ih =>
    have hrest : c ∈ piece ++ separated false pieces →
        c = ',' ∨ ∃ p ∈ piece :: pieces, c ∈ p := by
      intro h
      rcases List.mem_append.mp h with h | h
      · exact .inr ⟨piece, List.mem_cons_self, h⟩
      · rcases ih h with h | ⟨p, hp, h⟩
        · exact .inl h
        · exact .inr ⟨p, List.mem_cons_of_mem _ hp, h⟩
    cases first with
    | true => exact hrest h
    | false => exact (List.mem_cons.mp h).elim .inl hrest

/-- No control is written for a list, if none is for its items. -/
theorem le_of_mem_render_arr {items : List Json}
    (h : ∀ item ∈ items, ∀ c ∈ render item, 0x20 ≤ c.toNat) {c : Char}
    (hc : c ∈ render (.arr items)) : 0x20 ≤ c.toNat := by
  rw [render, renderItems_eq, List.cons_append, List.mem_cons, List.mem_append,
    List.mem_singleton] at hc
  rcases hc with rfl | hc | rfl
  · decide
  · rcases mem_separated hc with rfl | ⟨piece, hp, hc⟩
    · decide
    · obtain ⟨item, hitem, rfl⟩ := List.mem_map.mp hp
      exact h item hitem c hc
  · decide

/-- No control is written for an object, if none is for its values. -/
theorem le_of_mem_render_obj {members : List (String × Json)}
    (h : ∀ m ∈ members, ∀ c ∈ render m.2, 0x20 ≤ c.toNat) {c : Char}
    (hc : c ∈ render (.obj members)) : 0x20 ≤ c.toNat := by
  rw [render, renderMembers_eq, List.cons_append, List.mem_cons, List.mem_append,
    List.mem_singleton] at hc
  rcases hc with rfl | hc | rfl
  · decide
  · rcases mem_separated hc with rfl | ⟨piece, hp, hc⟩
    · decide
    · obtain ⟨m, hm, rfl⟩ := List.mem_map.mp hp
      rw [renderMember, List.mem_append, List.mem_cons] at hc
      rcases hc with hc | rfl | hc
      · exact le_of_mem_quote hc
      · decide
      · exact h m hm c hc
  · decide

/-- No control is written for an integer. -/
theorem le_of_mem_renderInt {n : Int} {c : Char} (hc : c ∈ renderInt n) : 0x20 ≤ c.toNat := by
  have hdigits : c ∈ Nat.toDigits 10 n.natAbs → 0x20 ≤ c.toNat := by
    intro h
    have hdigit := Nat.isDigit_of_mem_toDigits (by omega) (Nat.le_refl 10) h
    simp only [Char.isDigit, Bool.and_eq_true, decide_eq_true_eq] at hdigit
    exact Nat.le_trans (by decide) (UInt32.le_iff_toNat_le.mp hdigit.1)
  rw [renderInt] at hc
  split at hc
  · rcases List.mem_cons.mp hc with rfl | hc
    · decide
    · exact hdigits hc
  · exact hdigits hc

/-- **No control is written** for a value. -/
theorem le_of_mem_render {depth : Nat} {j : Json} (h : IsPortable depth j) :
    ∀ c ∈ render j, 0x20 ≤ c.toNat := by
  refine h.induction (motive := fun _ j => ∀ c ∈ render j, 0x20 ≤ c.toNat) ?_ ?_ ?_ ?_ ?_ ?_
  · exact fun _ => le_of_all rfl
  · exact fun _ b => by cases b <;> exact le_of_all rfl
  · exact fun _ n _ c hc => le_of_mem_renderInt (by rwa [render] at hc)
  · exact fun _ s c hc => le_of_mem_quote (by rwa [render] at hc)
  · exact fun _ items hitems c hc =>
      le_of_mem_render_arr (fun item hi => (hitems item hi).2) hc
  · exact fun _ members hmembers c hc =>
      le_of_mem_render_obj (fun m hm => (hmembers m hm).2) hc

/-! ### Records -/

/-- **A record that names its own kind** is read back from its text. -/
theorem readRecord_compact {α : Type} {title tag : String} {variants : List String}
    {build : String → Json → Except Misfit α} {kind : String} (hkind : kind ∈ variants)
    {members : List (String × Json)} (htag : ∀ m ∈ members, m.1 ≠ tag)
    (hportable : IsPortable depthLimit (.obj ((tag, .str kind) :: members))) {record : α}
    (hbuild : build kind (.obj members) = .ok record) :
    readRecord title tag variants build (compact (.obj ((tag, .str kind) :: members)))
      = .ok record := by
  obtain ⟨glyphs, hglyphs, hkind?⟩ := exists_glyphs kind
  have hspells : (Phrase.str glyphs).spells kind = true := beq_iff_eq.mpr hkind?
  -- The tag is written first, and no other member is named like it.
  obtain ⟨entry, hentry, hvalue, hnamed, hcore⟩ :
      ∃ entry : Entry Phrase, Phrase.entryChars entry = renderMember (tag, .str kind) ∧
        entry.value? (Phrase.value? (depthLimit - 1)) = some (tag, .str kind) ∧
        entry.isNamed tag = true ∧ entry.value.core = .str glyphs :=
    exists_entry (by rw [Phrase.chars, hglyphs, render]) (Phrase.value?_of_spells hspells _)
  have hphrases : ∀ m ∈ members, ∃ p : Phrase, p.chars = render m.2 ∧
      p.value? (depthLimit - 1) = some m.2 := fun m hm =>
    exists_phrase (hportable m (List.mem_cons_of_mem _ hm))
  obtain ⟨entries, hentries, hvalues⟩ := exists_members hphrases
  have hothers : entries.filter (·.isNamed tag) = [] := by
    have hcount : members.countP (·.1 == tag) = 0 :=
      List.countP_eq_zero.mpr fun m hm => by simpa using htag m hm
    rw [countP_values hvalues] at hcount
    exact List.filter_eq_nil_iff.mpr (List.countP_eq_zero.mp hcount)
  have honce : (entry :: entries).filter (·.isNamed tag) = [entry] := by
    rw [List.filter_cons, if_pos hnamed, hothers]
  have hkept : ((tag, Json.str kind) :: members).filter (·.1 != tag) = members := by
    rw [List.filter_cons_of_neg (by simp)]
    exact List.filter_eq_self.mpr fun m hm => by simpa using htag m hm
  have hall : (entry :: entries).mapM (Entry.value? (Phrase.value? (depthLimit - 1)))
      = some ((tag, .str kind) :: members) := by
    rw [List.mapM_cons, hvalue, hvalues]
    rfl
  have htext : (compact (.obj ((tag, .str kind) :: members))).toList
      = (Phrase.bare (.obj .empty (entry :: entries))).chars := by
    rw [compact, String.toList_ofList, Spaced.chars, Phrase.bare, Phrase.spacedChars, Phrase.chars,
      Phrase.membersChars, hentry, hentries, render, renderMembers_eq]
    simp [comma, separated, Blanks.empty]
  have hread := toOption_readRecord title tag variants build rfl htext
  rw [tagged?_of_once honce (List.contains_iff_mem.mpr hkind) (hcore ▸ hspells)
    (hcore ▸ Phrase.value?_of_spells hspells _), hall, Option.map_some, Option.bind_some, hkept,
    hbuild] at hread
  exact eq_ok_of_toOption hread

end DocRelay.Json
