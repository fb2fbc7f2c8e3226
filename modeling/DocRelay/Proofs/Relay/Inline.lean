import DocRelay.Proofs.Json.Reprint
import DocRelay.Proofs.Relay.Acknowledged

namespace DocRelay

/-!
# Changes written inline

A host writes a change of the document or of the location into its message either as a string, or
inline, as a value.  A relay does the same with both, although an inline change is read, put into
canonical form and written again before the relay reads it: what it reads is the same value.

* `InboundMessage.carrier`, `InboundMessage.carrying` — lines with a change, and their messages;
* `InboundMessage.toOption_ofText_carrier` — what comes of such a line;
* `Relay.readPatch_of_value?`, `Relay.handle_location_congr` — what a relay makes of a change;
* `Relay.handled_alike` — the same becomes of a change in both forms.
-/

open Json

namespace InboundMessage

/-! ### Lines that carry a change -/

/-- The kinds of messages that carry a change. -/
def carrierKinds : List String := ["patch", "location"]

/-- The message of a kind that carries a change. -/
def carrying (kind text : String) : InboundMessage :=
  if kind = "patch" then .patch text else .location text

/-- The line of a message of a kind, with its change written in these characters. -/
def carrier (kind : String) (change : List Char) : String :=
  String.ofList ('\x7b' :: (quote "type" ++ ':' :: (quote kind ++ ',' ::
    (quote kind ++ ':' :: (change ++ ['\x7d'])))))

/-- The change is the only member of the message besides its kind. -/
theorem build_carrier {kind : String} (hkind : kind ∈ carrierKinds) {j : Json} {text : String}
    (h : payloadText j = .ok text) : build kind (.obj [(kind, j)]) = .ok (carrying kind text) := by
  have hpayload : ∀ name member, payload name member (.obj [(member, j)]) = .ok text :=
    fun name member => Shape.decode_single h
  rcases List.mem_cons.mp hkind with rfl | hkind
  · rw [build, hpayload]
    rfl
  · obtain rfl := List.mem_singleton.mp hkind
    rw [build, hpayload]
    rfl

section Envelope

variable {kind : String} {tag name : List Glyph} (change : Spaced Phrase)

/-- The members of the line: its kind, and the change under the name of the kind. -/
def envelope (tag name : List Glyph) (change : Spaced Phrase) : List (Entry Phrase) :=
  [⟨.empty, tag, .empty, (Phrase.str name).bare⟩, ⟨.empty, name, .empty, change⟩]

/-- The line is the object with these members. -/
theorem chars_envelope (htag : '"' :: glyphChars tag = quote "type")
    (hname : '"' :: glyphChars name = quote kind) :
    (carrier kind change.chars).toList
      = (Phrase.obj .empty (envelope tag name change)).bare.chars := by
  rw [carrier, String.toList_ofList, Phrase.chars_bare, Phrase.chars, ← htag, ← hname]
  simp [envelope, Phrase.membersChars, Phrase.entryChars, Phrase.bare, Phrase.spacedChars,
    Phrase.chars, comma, Blanks.empty, Spaced.chars]

/-- The members stand for values if the change does. -/
theorem values_envelope (htype : glyphText? tag = some "type") (hkind : glyphText? name = some kind)
    (depth : Nat) :
    (envelope tag name change).mapM (Entry.value? (Phrase.value? depth))
      = (change.core.value? depth).map fun j => [("type", .str kind), (kind, j)] := by
  have hspells : (Phrase.str name).spells kind = true := beq_iff_eq.mpr hkind
  have hfirst : Entry.value? (Phrase.value? depth) ⟨.empty, tag, .empty, (Phrase.str name).bare⟩
      = some ("type", .str kind) :=
    Entry.value?_eq_some_iff.mpr ⟨htype, Phrase.value?_of_spells hspells depth⟩
  have hsecond : Entry.value? (Phrase.value? depth) ⟨.empty, name, .empty, change⟩
      = (change.core.value? depth).map fun j => (kind, j) := by
    rw [Entry.value?, hkind]
    show (change.core.value? depth).bind _ = _
    cases change.core.value? depth <;> rfl
  rw [envelope, List.mapM_cons, List.mapM_cons, hfirst, hsecond]
  cases change.core.value? depth <;> rfl

/-- The change is what comes of the members besides their kind. -/
theorem tagged?_envelope (htype : glyphText? tag = some "type")
    (hname : glyphText? name = some kind) (hkind : kinds.contains kind = true)
    (hne : kind ≠ "type") (depth : Nat) :
    tagged? "type" kinds (Phrase.value? depth) (envelope tag name change)
      = (change.core.value? depth).map fun j => (kind, .obj [(kind, j)]) := by
  have hspells : (Phrase.str name).spells kind = true := beq_iff_eq.mpr hname
  have htag : (Entry.mk .empty tag .empty (Phrase.str name).bare).isNamed "type" = true :=
    beq_iff_eq.mpr htype
  have hchange : ¬(Entry.mk .empty name .empty change).isNamed "type" = true := by
    rw [Entry.isNamed, hname]
    simpa using hne
  -- The kind is named once, by the first member.
  have once : (envelope tag name change).filter (·.isNamed "type")
      = [⟨.empty, tag, .empty, (Phrase.str name).bare⟩] := by
    rw [envelope, List.filter_cons, if_pos htag, List.filter_cons, if_neg hchange]
    rfl
  have hkept : ∀ j, [("type", Json.str kind), (kind, j)].filter (·.1 != "type") = [(kind, j)] := by
    intro j
    simp [hne]
  rw [tagged?_of_once once hkind hspells (Phrase.value?_of_spells hspells depth),
    values_envelope change htype hname, Option.map_map]
  congr 1
  funext j
  rw [Function.comp_apply, hkept]

end Envelope

/-- **The message of a line** that carries a change is there if the change stands for a value, and
    carries the text that the value counts as. -/
theorem toOption_ofText_carrier {kind : String} (hkind : kind ∈ carrierKinds)
    (change : Spaced Phrase) :
    (ofText (carrier kind change.chars)).toOption
      = (change.core.value? (depthLimit - 1)).bind fun j =>
        (payloadText j).toOption.map (carrying kind) := by
  have hvariant : kinds.contains kind = true ∧ kind ≠ "type" := by
    revert hkind kind
    decide
  obtain ⟨tag, htag, htype⟩ := exists_glyphs "type"
  obtain ⟨name, hname, hspelled⟩ := exists_glyphs kind
  have hread : (ofText (carrier kind change.chars)).toOption
      = (readRecord "InboundMessage" "type" kinds build (carrier kind change.chars)).toOption := by
    rw [ofText]
    cases readRecord "InboundMessage" "type" kinds build (carrier kind change.chars) <;> rfl
  rw [hread, toOption_readRecord _ _ _ _ rfl (chars_envelope change htag hname),
    tagged?_envelope change htype hspelled hvariant.1 hvariant.2]
  -- Whether there is a message depends on the change alone.
  cases change.core.value? (depthLimit - 1) with
  | none => rfl
  | some j =>
    obtain ⟨text, htext⟩ := exists_payloadText j
    show (build kind (.obj [(kind, j)])).toOption = (payloadText j).toOption.map (carrying kind)
    rw [build_carrier hkind htext, htext]
    rfl

/-- An inline change that is neither a string nor null counts as the text of its canonical form. -/
theorem payloadText_eq {depth : Nat} {p : Phrase} (hstr : ∀ glyphs, p ≠ .str glyphs)
    (hnull : p ≠ .null) {j : Json} (h : p.value? depth = some j) :
    payloadText j = .ok j.canonical.compact := by
  cases p with
  | null => exact absurd rfl hnull
  | bool b =>
    rw [Phrase.value?] at h
    obtain rfl := Option.some.inj h
    rfl
  | num n =>
    rw [Phrase.value?] at h
    have hnumber := Numeral.isNumber h
    cases j with
    | int _ => rfl
    | float _ => rfl
    | _ => exact hnumber.elim
  | str glyphs => exact absurd rfl (hstr glyphs)
  | arr inside items =>
    cases depth with
    | zero => cases h
    | succ depth =>
      obtain ⟨values, -, rfl⟩ := Option.map_eq_some_iff.mp h
      rfl
  | obj inside members =>
    cases depth with
    | zero => cases h
    | succ depth =>
      obtain ⟨values, -, rfl⟩ := Option.map_eq_some_iff.mp h
      rfl

end InboundMessage

namespace Relay

/-! ### What a relay reads of a change -/

/-- No value is written with blanks only. -/
theorem exists_not_isBlank (p : Phrase) : ∃ c ∈ p.chars, Text.isBlank c = false := by
  cases p with
  | null => exact ⟨'n', by rw [Phrase.chars]; simp, by decide⟩
  | bool b => cases b <;> exact ⟨'e', by rw [Phrase.chars]; simp, by decide⟩
  | num n =>
    obtain ⟨c, rest, hc, hfirst, -⟩ := n.exists_chars_cons
    refine ⟨c, by rw [Phrase.chars, hc]; exact List.mem_cons_self, ?_⟩
    rcases hfirst with rfl | hdigit
    · decide
    · simp only [Char.isDigit, Bool.and_eq_true, decide_eq_true_eq] at hdigit
      have hlow : 48 ≤ c.toNat := hdigit.1
      have hhigh : c.toNat ≤ 57 := hdigit.2
      simp only [Text.isBlank, Bool.or_eq_false_iff, Bool.and_eq_false_iff,
        decide_eq_false_iff_not, beq_eq_false_iff_ne]
      omega
  | str glyphs => exact ⟨'"', by rw [Phrase.chars]; simp, by decide⟩
  | arr inside items => exact ⟨'[', by rw [Phrase.chars]; simp, by decide⟩
  | obj inside members => exact ⟨'\x7b', by rw [Phrase.chars]; simp, by decide⟩

/-- The text of a patch is read as the canonical form of what it stands for. -/
theorem readPatch_of_value? {line : Spaced Phrase} {text : String} (htext : text.toList = line.chars)
    {j : Json} (h : line.core.value? depthLimit = some j) : readPatch text = .ok j.canonical := by
  have hblank : ¬Text.isBlankText text = true := by
    intro hall
    obtain ⟨c, hc, hnot⟩ := exists_not_isBlank line.core
    have hmem : c ∈ text.toList := by
      rw [htext, Spaced.chars, Phrase.spacedChars]
      simp [hc]
    rw [List.all_eq_true.mp hall c hmem] at hnot
    cases hnot
  have hread := toOption_readWithin htext depthLimit
  rw [h] at hread
  rw [readPatch, if_neg hblank, Json.read, eq_ok_of_toOption hread]

/-- The canonical form of an object has the members that the object is read as. -/
theorem members?_canonical (j : Json) :
    j.canonical.members?.map canonicalTable = j.members?.map canonicalTable := by
  cases j with
  | obj members =>
    exact congrArg some (canonicalTable_eq_self (isCanonicalTable_canonicalTable members))
  | float x =>
    rw [Json.canonical]
    split <;> rfl
  | _ => rfl

/-- Two texts of a location that are read as the same object, or both as none. -/
theorem handle_location_congr {first second : String}
    (h : (readTable first).toOption = (readTable second).toOption) (r : Relay) (s : Surroundings) :
    (r.handle (.location first) s).2 = (r.handle (.location second) s).2 ∧
    ((r.handle (.location first) s).1 = (r.handle (.location second) s).1 ∨
      ∃ f g, (r.handle (.location first) s).1 = .error (.location (.notObject f)) ∧
        (r.handle (.location second) s).1 = .error (.location (.notObject g))) := by
  simp only [handle, onLocation]
  -- Both are read, as the same object, or neither is.
  cases hfirst : readTable first with
  | error f =>
    cases hsecond : readTable second with
    | error g => exact ⟨rfl, .inr ⟨f, g, rfl, rfl⟩⟩
    | ok update =>
      rw [hfirst, hsecond] at h
      cases h
  | ok update =>
    cases hsecond : readTable second with
    | error g =>
      rw [hfirst, hsecond] at h
      cases h
    | ok other =>
      rw [hfirst, hsecond] at h
      obtain rfl := Option.some.inj h
      exact ⟨rfl, .inl rfl⟩

/-! ### Both forms of a change -/

/-- **Inline changes.** A change is a text that is a value, neither a string nor null, with
    integers of 64 bits for numbers.  If the line that carries it inline is a message, then so is
    the line that carries it as a string, however the string is written, and a relay does the same
    with both messages: the relay and what is around it are alike afterwards, and so is the reply,
    unless the change is a location that is no object, which is refused both times. -/
theorem handled_alike {kind : String} (hkind : kind ∈ InboundMessage.carrierKinds)
    {change : Spaced Phrase} (hwhole : change.core.isWhole = true)
    (hstr : ∀ glyphs, change.core ≠ .str glyphs) (hnull : change.core ≠ .null)
    {inline : InboundMessage}
    (h : InboundMessage.ofText (InboundMessage.carrier kind change.chars) = .ok inline)
    {glyphs : List Glyph} (hglyphs : glyphText? glyphs = some (String.ofList change.chars)) :
    let quoted := InboundMessage.carrying kind (String.ofList change.chars)
    InboundMessage.ofText (InboundMessage.carrier kind ('"' :: glyphChars glyphs)) = .ok quoted ∧
    ∀ (r : Relay) (s : Surroundings), (r.handle quoted s).2 = (r.handle inline s).2 ∧
      ((r.handle quoted s).1 = (r.handle inline s).1 ∨
        ∃ f g, (r.handle quoted s).1 = .error (.location (.notObject f)) ∧
          (r.handle inline s).1 = .error (.location (.notObject g))) := by
  intro quoted
  have hinline := InboundMessage.toOption_ofText_carrier hkind change
  rw [h] at hinline
  obtain ⟨j, hshallow, hmessage⟩ := Option.bind_eq_some_iff.mp hinline.symm
  rw [InboundMessage.payloadText_eq hstr hnull hshallow] at hmessage
  obtain rfl : InboundMessage.carrying kind j.canonical.compact = inline :=
    Option.some.inj hmessage
  -- Alone the change may be nested one level deeper than inside the message.
  have hvalue : change.core.value? depthLimit = some j := Phrase.value?_succ hshallow
  obtain ⟨reprint, hchars, hreprint⟩ := Phrase.exists_reprint hwhole hvalue
  have hsecond : j.canonical.compact.toList = reprint.bare.chars := by
    rw [compact, String.toList_ofList, Phrase.chars_bare, hchars]
  have hfirst : (String.ofList change.chars).toList = change.chars := String.toList_ofList
  refine ⟨?_, fun r s => ?_⟩
  · have hquoted := InboundMessage.toOption_ofText_carrier hkind (Phrase.str glyphs).bare
    have hspells : (Phrase.str glyphs).spells (String.ofList change.chars) = true :=
      beq_iff_eq.mpr hglyphs
    rw [Phrase.chars_bare, Phrase.chars] at hquoted
    refine eq_ok_of_toOption (hquoted.trans ?_)
    show ((Phrase.str glyphs).value? (depthLimit - 1)).bind _ = _
    rw [Phrase.value?_of_spells hspells]
    rfl
  · rcases List.mem_cons.mp hkind with rfl | hkind
    · have hreads : readPatch (String.ofList change.chars) = readPatch j.canonical.compact := by
        rw [readPatch_of_value? hfirst hvalue, readPatch_of_value? hsecond hreprint,
          isCanonical_canonical j]
      have hsame : r.handle quoted s = r.handle (.patch j.canonical.compact) s := by
        show r.handle (.patch _) s = _
        rw [handle, handle, onPatch, onPatch, hreads]
      exact ⟨congrArg Prod.snd hsame, .inl (congrArg Prod.fst hsame)⟩
    · obtain rfl := List.mem_singleton.mp hkind
      refine handle_location_congr ?_ r s
      rw [toOption_readTable hfirst, toOption_readTable hsecond, hvalue]
      show _ = (reprint.value? depthLimit).bind _
      rw [hreprint]
      exact (members?_canonical j).symm

/-- A change with blanks around it, a key that is written with an escape, and another one that is
    there twice. -/
def scribbled : Spaced Phrase :=
  let identity : Phrase := .obj oneBlank [memberOf .empty "id" (.str (glyphsOf "m1"))]
  let event : Phrase := .obj .empty [
    memberOf .empty "new" (.num ⟨true, digitsOf '7' [] rfl, fun _ => rfl, none, none⟩),
    memberOf oneBlank "model" identity,
    memberOf oneBlank "kind" (.str (glyphsOf "ModelChanged")),
    memberOf oneBlank "attr" (.str (glyphsOf "value"))]
  let events : Entry Phrase :=
    ⟨oneBlank, .unicode ['0', '0', '6', '5'] 0x65 rfl rfl :: glyphsOf "vents", oneBlank,
      ⟨.empty, .arr .empty [⟨.empty, event, oneBlank⟩], oneBlank⟩⟩
  ⟨oneBlank, .obj .empty [memberOf .empty "events" .null, events], oneBlank⟩

/-- The slider is moved in the same way by both forms of a change. -/
theorem handled_alike_scribbled :
    let text := " \x7b\"events\": null, \"\\u0065vents\" :[\x7b\"new\": -7, \"model\": \x7b \"id\": "
      ++ "\"m1\"\x7d, \"kind\": \"ModelChanged\", \"attr\": \"value\"\x7d ] \x7d "
    let inline : InboundMessage := .patch ("\x7b\"events\":[\x7b\"attr\":\"value\","
      ++ "\"kind\":\"ModelChanged\",\"model\":\x7b\"id\":\"m1\"\x7d,\"new\":-7\x7d]\x7d")
    let around := Setup.sliderReady.around
    "patch" ∈ InboundMessage.carrierKinds ∧ scribbled.chars = text.toList ∧
    scribbled.core.isWhole = true ∧ (∀ glyphs, scribbled.core ≠ .str glyphs) ∧
    scribbled.core ≠ .null ∧
    InboundMessage.ofText (InboundMessage.carrier "patch" scribbled.chars) = .ok inline ∧
    InboundMessage.ofText (InboundMessage.carrier "patch" (quote text)) = .ok (.patch text) ∧
    (slider.handle (.patch text) around).2 = (slider.handle inline around).2 ∧
    (slider.handle (.patch text) around).1.toOption = some () := by
  intro text inline around
  have hkind : "patch" ∈ InboundMessage.carrierKinds := by decide
  have htext : scribbled.chars = text.toList := by decide +kernel
  have hwhole : scribbled.core.isWhole = true := by decide +kernel
  have hinline : InboundMessage.ofText (InboundMessage.carrier "patch" scribbled.chars)
      = .ok inline :=
    eq_ok_of_toOption ((InboundMessage.toOption_ofText_carrier hkind scribbled).trans
      (by decide +kernel))
  obtain ⟨glyphs, hquote, hspells⟩ := exists_glyphs text
  have hglyphs : glyphText? glyphs = some (String.ofList scribbled.chars) := by
    rw [hspells, htext, String.ofList_toList]
  have halike := handled_alike hkind hwhole (fun _ => nofun) nofun hinline hglyphs
  rw [hquote, htext, String.ofList_toList] at halike
  exact ⟨hkind, htext, hwhole, fun _ => nofun, nofun, hinline, halike.1,
    (halike.2 slider around).1, by decide +kernel⟩

end Relay

end DocRelay
