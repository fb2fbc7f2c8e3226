import DocRelay.Proofs.Json.Decode
import DocRelay.Proofs.Json.Tagged
import DocRelay.Proofs.Relay.Trace
import DocRelay.Proofs.Worker.Reading

namespace DocRelay

/-!
# Which lines of patches are acknowledged

A line that is an object, names itself a patch and has one patch at most is acknowledged once if
it stands for a value, whatever becomes of the patch.  The reader of lines refuses a line that
stands for nothing, because of a number that is too large, half a pair of surrogates, or parts that
are nested too deep; such a line is passed over, and the host waits for its acknowledgement forever.

* `Json.Phrase.isPatch` — lines of patches;
* `InboundMessage.ofBytes?_of_isPatch` — the message of such a line;
* `Relay.Answer.idles` — how often a message is acknowledged;
* `Relay.acknowledged_line` — when the line is acknowledged;
* `Relay.tooLarge_lost` — a line that is not.
-/

/-! ### Lines of patches -/

/-- The value is an object with exactly one member `type`, which is `"patch"`, and with at most one
    member `patch`. -/
def Json.Phrase.isPatch : Json.Phrase → Bool
  | .obj _ members =>
    match members.filter (·.isNamed "type") with
    | [m] => m.value.core.spells "patch" && members.countP (·.isNamed "patch") ≤ 1
    | _ => false
  | _ => false

/-- What a line of a patch is made of. -/
theorem Json.Phrase.exists_of_isPatch {p : Json.Phrase} (h : p.isPatch = true) :
    ∃ inside members m, p = .obj inside members ∧ members.filter (·.isNamed "type") = [m] ∧
      m.value.core.spells "patch" = true ∧ members.countP (·.isNamed "patch") ≤ 1 := by
  cases p with
  | obj inside members =>
    rw [isPatch] at h
    split at h
    · rename_i m once
      obtain ⟨spells, hone⟩ := Bool.and_eq_true_iff.mp h
      exact ⟨inside, members, m, rfl, once, spells, of_decide_eq_true hone⟩
    · cases h
  | _ => cases h

namespace InboundMessage

/-- Every value counts as a text. -/
theorem exists_payloadText (j : Json) : ∃ text, payloadText j = .ok text := by
  cases j <;> exact ⟨_, rfl⟩

/-- A patch is built from whatever stands for it. -/
theorem exists_build_patch {members : List (String × Json)}
    (hone : members.countP (·.1 == "patch") ≤ 1) :
    ∃ text, build "patch" (.obj members) = .ok (.patch text) := by
  obtain ⟨text, htext⟩ : ∃ text, payload "Patch" "patch" (.obj members) = .ok text :=
    Json.Shape.exists_decode_single exists_payloadText hone
  exact ⟨text, congrArg (Except.map InboundMessage.patch) htext⟩

/-- **The message of a patch's line** is a patch if the line stands for a value; otherwise the line
    is no message. -/
theorem ofBytes?_of_isPatch {line : Json.Spaced Json.Phrase} (h : line.core.isPatch = true) :
    ∃ text, ofBytes? (Text.utf8Chars line.chars)
      = (line.core.value? Json.depthLimit).map fun _ => .patch text := by
  obtain ⟨inside, members, m, hcore, once, spells, hone⟩ := Json.Phrase.exists_of_isPatch h
  have hread : ∀ text, (ofText text).toOption
      = (Json.readRecord "InboundMessage" "type" kinds build text).toOption := by
    intro text
    rw [ofText]
    cases Json.readRecord "InboundMessage" "type" kinds build text <;> rfl
  have hvalue : line.core.value? Json.depthLimit
      = (members.mapM (Json.Entry.value? (Json.Phrase.value? (Json.depthLimit - 1)))).map .obj := by
    rw [hcore]
    rfl
  rw [ofBytes?, Text.ofUtf8_utf8Chars]
  dsimp only
  rw [hread, Json.toOption_readRecord _ _ _ _ hcore String.toList_ofList,
    Json.tagged?_of_once once (by decide) spells (Json.Phrase.value?_of_spells spells _), hvalue]
  cases hvalues : members.mapM (Json.Entry.value? (Json.Phrase.value? (Json.depthLimit - 1))) with
  | none => exact ⟨"", rfl⟩
  | some values =>
    -- There are no more patches among the other members than on the line.
    have hkept : (values.filter (·.1 != "type")).countP (·.1 == "patch") ≤ 1 := by
      refine Nat.le_trans (List.filter_sublist.countP_le) ?_
      rw [Json.countP_values hvalues]
      exact hone
    obtain ⟨text, hbuild⟩ := exists_build_patch hkept
    refine ⟨text, ?_⟩
    show (build "patch" _).toOption = _
    rw [hbuild]
    rfl

end InboundMessage

/-! ### Acknowledgements -/

namespace Relay

/-- How many of the messages are acknowledgements. -/
def idles (posted : List OutboundMessage) : Nat :=
  posted.countP (·.kind == "idle")

/-- A patch is acknowledged once, and nothing else is. -/
theorem Answer.idles_eq {linked : Bool} {n next : Nat} {m : InboundMessage}
    {own : List OutboundMessage} (h : Answer linked n m own next) :
    idles own = if m.kind == "patch" then 1 else 0 := by
  cases h <;> rfl

/-- What is posted in a turn for a patch has one acknowledgement. -/
theorem idles_posts {r : Relay} {s : Surroundings} {live : LiveDocument} (h : r.Serves s live)
    (text : String) : idles (posts (r, s) (.patch text)) = 1 :=
  (turn_turned h (.patch text)).answer.idles_eq

/-- **Acknowledgement.** A relay that a setup has made reads a stream in which a line of a patch
    comes behind lines that are texts.  What it posts are the answers to the messages of the lines
    before, to the line, and to the lines behind, in this order.  If the line stands for a value,
    there is exactly one acknowledgement among the answers to the line; if it stands for nothing,
    the line is not answered at all. -/
theorem acknowledged_line {l : Loader} {st after : Setup} {relay : Relay}
    (h : st.bootstrap l = (.ok relay, after)) {line : Json.Spaced Json.Phrase}
    (hpatch : line.core.isPatch = true) {input : Bytes} {front back : List Bytes}
    (hlines : Transport.lines input = front ++ Text.utf8Chars line.chars :: back)
    (htexts : ∀ other ∈ front, Transport.isText other = true) :
    let messages := (Transport.readMessages true input).messages
    let start := (relay, after.around)
    let earlier := front.filterMap InboundMessage.ofBytes?
    let own := (InboundMessage.ofBytes? (Text.utf8Chars line.chars)).toList
    let here := earlier.foldl turn start
    let behind := own.foldl turn here
    ∃ later,
      messages = earlier ++ own ++ later ∧
      (relay.run after.around messages).2.2.outbox.posted
        = after.around.outbox.posted ++ ((answers start earlier).flatten
          ++ (answers here own).flatten ++ (answers behind later).flatten) ∧
      ((line.core.value? Json.depthLimit).isSome → idles (answers here own).flatten = 1) ∧
      (line.core.value? Json.depthLimit = none → (answers here own).flatten = []) := by
  obtain ⟨live, hserves, -⟩ := Setup.serves_of_bootstrap h
  obtain ⟨text, hmessage⟩ := InboundMessage.ofBytes?_of_isPatch hpatch
  have htext : Transport.isText (Text.utf8Chars line.chars) = true := by
    rw [Transport.isText, Text.ofUtf8_utf8Chars]
    rfl
  have hread := (Transport.readMessages_lines input).1
  rw [hlines, List.takeWhile_append_of_pos htexts, List.takeWhile_cons_of_pos htext,
    List.filterMap_append] at hread
  dsimp only
  generalize hown : (InboundMessage.ofBytes? (Text.utf8Chars line.chars)).toList = own
  generalize hlater : (back.takeWhile Transport.isText).filterMap InboundMessage.ofBytes? = later
  have hmessages : (Transport.readMessages true input).messages
      = front.filterMap InboundMessage.ofBytes? ++ own ++ later := by
    rw [hread, List.append_assoc, ← hown, ← hlater, List.filterMap_cons]
    cases InboundMessage.ofBytes? (Text.utf8Chars line.chars) <;> rfl
  -- The relay serves its document when the line comes, whatever came before it.
  obtain ⟨⟨there, hhere⟩, -⟩ := foldl_turned hserves (front.filterMap InboundMessage.ofBytes?)
  refine ⟨later, hmessages, ?_, fun hsome => ?_, fun hnone => ?_⟩
  · rw [run_eq_foldl hserves, posted_foldl hserves, hmessages, answers_append, answers_append,
      List.foldl_append, List.flatten_append, List.flatten_append]
  · obtain ⟨value, hvalue⟩ := Option.isSome_iff_exists.mp hsome
    rw [hvalue] at hmessage
    rw [← hown, hmessage]
    show idles (posts _ (.patch text) ++ []) = 1
    rw [List.append_nil]
    exact idles_posts hhere text
  · rw [hnone] at hmessage
    rw [← hown, hmessage]
    rfl

/-! ### A line that is acknowledged, and a line that is not -/

/-- Characters that stand for themselves, as the parts of a string. -/
def glyphsOf (text : String) : List Json.Glyph :=
  text.toList.filterMap fun c =>
    if h : c ≠ '"' ∧ c ≠ '\\' ∧ 0x20 ≤ c.toNat then some (.plain c h) else none

/-- One blank. -/
def oneBlank : Json.Blanks := ⟨[' '], List.all_eq_true.mp rfl⟩

/-- A member, with a blank behind its colon. -/
def memberOf (before : Json.Blanks) (name : String) (value : Json.Phrase) :
    Json.Entry Json.Phrase :=
  ⟨before, glyphsOf name, .empty, ⟨oneBlank, value, .empty⟩⟩

/-- Digits, the first one apart. -/
def digitsOf (first : Char) (others : List Char) (h : (first :: others).all Char.isDigit = true) :
    Json.Digits :=
  ⟨first :: others, List.cons_ne_nil _ _, List.all_eq_true.mp h⟩

/-- The line of a patch that is a list of one number, a power of ten. -/
def powerLine (exponent : Json.Digits) : Json.Spaced Json.Phrase :=
  let power : Json.Numeral :=
    ⟨false, digitsOf '1' [] rfl, fun _ => rfl, none,
      some ⟨'e', .inl rfl, none, fun c hc => absurd hc (Option.not_mem_none c), exponent⟩⟩
  let list : Json.Phrase := .arr .empty [⟨.empty, .num power, .empty⟩]
  ⟨.empty, .obj .empty [memberOf .empty "type" (.str (glyphsOf "patch")),
    memberOf oneBlank "patch" list], .empty⟩

/-- The line of the power 400, which is past the largest finite number. -/
def tooLarge : Json.Spaced Json.Phrase := powerLine (digitsOf '4' ['0', '0'] rfl)

/-- The line of the power 5. -/
def notTooLarge : Json.Spaced Json.Phrase := powerLine (digitsOf '5' [] rfl)

/-- The line in which a host tells that it has painted the document. -/
def renderedLine : Bytes := Text.utf8 "\x7b\"type\": \"rendered\"\x7d"

/-- What a host sends that has painted the document, and then sends the line. -/
def hostLines (line : Json.Spaced Json.Phrase) : Bytes :=
  renderedLine ++ Transport.newline :: (Text.utf8Chars line.chars ++ [Transport.newline])

/-- The relay of the slider acknowledges the line of the power 5. -/
theorem acknowledged_line_notTooLarge :
    let messages := (Transport.readMessages true (hostLines notTooLarge)).messages
    let start := (slider, Setup.sliderReady.around)
    let earlier := [renderedLine].filterMap InboundMessage.ofBytes?
    let own := (InboundMessage.ofBytes? (Text.utf8Chars notTooLarge.chars)).toList
    let here := earlier.foldl turn start
    let behind := own.foldl turn here
    Setup.slider.bootstrap .slider = (.ok slider, .sliderReady) ∧
    notTooLarge.core.isPatch = true ∧
    Transport.lines (hostLines notTooLarge)
      = [renderedLine] ++ Text.utf8Chars notTooLarge.chars :: [] ∧
    (∀ other ∈ [renderedLine], Transport.isText other = true) ∧
    (notTooLarge.core.value? Json.depthLimit).isSome ∧
    ∃ later,
      messages = earlier ++ own ++ later ∧
      (slider.run Setup.sliderReady.around messages).2.2.outbox.posted
        = Setup.sliderReady.around.outbox.posted ++ ((answers start earlier).flatten
          ++ (answers here own).flatten ++ (answers behind later).flatten) ∧
      ((notTooLarge.core.value? Json.depthLimit).isSome → idles (answers here own).flatten = 1) ∧
      (notTooLarge.core.value? Json.depthLimit = none → (answers here own).flatten = []) := by
  have hpatch : notTooLarge.core.isPatch = true := by decide +kernel
  have hlines : Transport.lines (hostLines notTooLarge)
      = [renderedLine] ++ Text.utf8Chars notTooLarge.chars :: [] := by decide +kernel
  have htexts : ∀ other ∈ [renderedLine], Transport.isText other = true := by decide +kernel
  exact ⟨Setup.bootstrap_slider, hpatch, hlines, htexts, by decide +kernel,
    acknowledged_line Setup.bootstrap_slider hpatch hlines htexts⟩

/-- **A patch that is not acknowledged.** The line of the power 400 is an object, names itself a
    patch and has one patch.  The relay of the slider comes to the end of the stream and never
    acknowledges it. -/
theorem tooLarge_lost :
    let intake := Transport.readMessages true (hostLines tooLarge)
    Setup.slider.bootstrap .slider = (.ok slider, .sliderReady) ∧
    String.ofList tooLarge.chars
      = "\x7b\"type\": \"patch\", \"patch\": [1e400]\x7d" ∧
    tooLarge.core.isPatch = true ∧
    Transport.lines (hostLines tooLarge) = [renderedLine, Text.utf8Chars tooLarge.chars] ∧
    intake.messages = [.rendered] ∧ intake.fault = none ∧
    idles (slider.run Setup.sliderReady.around intake.messages).2.2.outbox.posted = 0 :=
  ⟨Setup.bootstrap_slider, by decide +kernel, by decide +kernel, by decide +kernel,
    by decide +kernel, by rfl, by decide +kernel⟩

end Relay

end DocRelay
