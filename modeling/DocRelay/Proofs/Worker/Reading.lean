import DocRelay.Proofs.Json.Tagged
import DocRelay.Proofs.Message.RoundTrip
import DocRelay.Proofs.Text.Split
import DocRelay.Proofs.Text.Utf8
import DocRelay.Worker.Transport
import Mathlib.Data.List.TakeWhile

namespace DocRelay

/-!
# What is read of a stream of lines

A line that is a text and no message costs nothing but itself.  A line that is no text ends the
reading: what was read before it is kept, and what comes behind it is lost.

* `InboundMessage.ofBytes?` — the message that the bytes of a line are;
* `Transport.lines` — the lines of a stream, cut at its newlines;
* `Transport.induction_lines` — induction line by line;
* `Transport.lines_eq` — the lines are the raw lines without their endings;
* `Transport.readLines_cons` — one line more;
* `Transport.readMessages_lines` — what is read of a stream, and when the reading stops;
* `Transport.readMessages_written` — what a host writes is read as its messages.
-/

namespace InboundMessage

/-- The message that the bytes of a line are. -/
def ofBytes? (line : Bytes) : Option InboundMessage :=
  match Text.ofUtf8 line with
  | .ok text => (ofText text).toOption
  | .error _ => none

end InboundMessage

/-- A blank line is no message. -/
theorem InboundMessage.toOption_ofText_of_isBlankText {text : String}
    (h : Text.isBlankText text = true) : (InboundMessage.ofText text).toOption = none := by
  have hnone : ∀ c ∈ (Json.Cursor.start text.toList).rest, c ≠ '\x7b' ∧ c ≠ '[' := by
    intro c hc
    have hblank : Text.isBlank c = true := List.all_eq_true.mp h c hc
    constructor
    · rintro rfl
      revert hblank
      decide
    · rintro rfl
      revert hblank
      decide
  obtain ⟨fault, hfault⟩ := Json.exists_readTagged_eq_error hnone
  rw [InboundMessage.ofText, Json.readRecord, hfault]
  rfl

namespace Transport

/-! ### Lines -/

/-- The lines of a stream.  A line ends at a newline, which belongs to no line, and a carriage
    return right before the newline is dropped too; an unended last line counts. -/
def lines (input : Bytes) : List Bytes :=
  Text.linesOn newline carriageReturn input

/-- The line is a text. -/
def isText (line : Bytes) : Bool :=
  (Text.ofUtf8 line).toOption.isSome

/-- A line without the carriage return at its end. -/
def dropReturn (line : Bytes) : Bytes :=
  if line.getLast? = some carriageReturn then line.dropLast else line

/-- **Induction line by line**: the line that nothing ends, and a line with its newline before the
    others. -/
theorem induction_lines {motive : Bytes → Prop}
    (last : ∀ line, newline ∉ line → motive line)
    (ended : ∀ line rest, newline ∉ line → motive rest → motive (line ++ newline :: rest))
    (input : Bytes) : motive input := by
  induction hn : input.length using Nat.strongRecOn generalizing input with
  | ind n ih =>
    by_cases hmem : newline ∈ input
    · obtain ⟨line, rest, rfl, hline⟩ := List.eq_append_cons_of_mem hmem
      have hshort : rest.length < n := by
        rw [← hn, List.length_append, List.length_cons]
        omega
      exact ended line rest hline (ih _ hshort rest rfl)
    · exact last input hmem

/-- Nothing ends the last line. -/
theorem lines_of_notMem {line : Bytes} (h : newline ∉ line) :
    lines line = if line = [] then [] else [line] := by
  induction line with
  | nil => rfl
  | cons b rest ih =>
    have hb : ¬ (b == newline) = true := fun he => h (beq_iff_eq.mp he ▸ List.mem_cons_self)
    have hrest : newline ∉ rest := fun hmem => h (List.mem_cons_of_mem _ hmem)
    have hhead : ¬ (b == carriageReturn && rest.head? == some newline) = true := by
      intro hand
      rw [Bool.and_eq_true, beq_iff_eq] at hand
      exact hrest (List.mem_of_head? (beq_iff_eq.mp hand.2))
    have hothers := ih hrest
    rw [lines] at hothers
    rw [lines, Text.linesOn, if_neg hb, if_neg hhead, hothers]
    cases rest <;> rfl

/-- A newline ends a line. -/
theorem lines_append {line : Bytes} (h : newline ∉ line) (rest : Bytes) :
    lines (line ++ newline :: rest) = dropReturn line :: lines rest :=
  Text.linesOn_append h rest

theorem rawLines_of_notMem {line : Bytes} (h : newline ∉ line) :
    rawLines line = if line = [] then [] else [line] := by
  induction line with
  | nil => rfl
  | cons b rest ih =>
    have hb : ¬ (b == newline) = true := fun he => h (beq_iff_eq.mp he ▸ List.mem_cons_self)
    rw [rawLines, if_neg hb, ih fun hmem => h (List.mem_cons_of_mem _ hmem)]
    cases rest <;> rfl

theorem rawLines_append {line : Bytes} (h : newline ∉ line) (rest : Bytes) :
    rawLines (line ++ newline :: rest) = (line ++ [newline]) :: rawLines rest := by
  induction line with
  | nil => rfl
  | cons b others ih =>
    have hb : ¬ (b == newline) = true := fun he => h (beq_iff_eq.mp he ▸ List.mem_cons_self)
    rw [List.cons_append, rawLines, if_neg hb, ih fun hmem => h (List.mem_cons_of_mem _ hmem)]
    rfl

/-! ### Texts of lines -/

/-- A newline of a text is a newline of its bytes. -/
theorem newline_mem_utf8Chars {cs : List Char} (h : '\n' ∈ cs) : newline ∈ Text.utf8Chars cs :=
  List.mem_flatMap.mpr ⟨'\n', h, by decide⟩

/-- A line that nothing ends keeps its text. -/
theorem toOption_lineText_of_notMem {line : Bytes} (h : newline ∉ line) :
    (lineText line).toOption = (Text.ofUtf8 line).toOption := by
  rw [lineText]
  cases hs : Text.ofUtf8 line with
  | error fault => rfl
  | ok s =>
    have hbytes : Text.utf8Chars s.toList = line := Text.ofUtf8_eq_ok_iff.mp hs
    have hending : dropEnding s.toList = s.toList := by
      rw [dropEnding]
      split
      · rename_i rest hrest
        have hmem : '\n' ∈ s.toList := List.mem_reverse.mp (hrest ▸ List.mem_cons_self)
        exact absurd (hbytes ▸ newline_mem_utf8Chars hmem) h
      · rename_i rest _ hrest
        have hmem : '\n' ∈ s.toList := List.mem_reverse.mp (hrest ▸ List.mem_cons_self)
        exact absurd (hbytes ▸ newline_mem_utf8Chars hmem) h
      · rfl
    rw [Except.map, hending, String.ofList_toList]

/-- The characters without the carriage return at their end. -/
def dropReturnChars (cs : List Char) : List Char :=
  if cs.getLast? = some '\r' then cs.dropLast else cs

theorem dropEnding_append (cs : List Char) : dropEnding (cs ++ ['\n']) = dropReturnChars cs := by
  rcases List.eq_nil_or_concat cs with rfl | ⟨front, c, rfl⟩
  · rfl
  · rw [List.concat_eq_append, dropEnding, dropReturnChars, List.getLast?_concat,
      List.dropLast_concat, List.reverse_append, List.reverse_append]
    by_cases hc : c = '\r'
    · subst hc
      simp
    · rw [if_neg fun he => hc (Option.some.inj he)]
      simp [hc]

/-- A carriage return at the end of a text is one at the end of its bytes. -/
theorem dropReturn_utf8Chars (cs : List Char) :
    dropReturn (Text.utf8Chars cs) = Text.utf8Chars (dropReturnChars cs) := by
  rw [dropReturn, dropReturnChars]
  have happend : ∀ front, Text.utf8Chars (front ++ ['\r'])
      = Text.utf8Chars front ++ [carriageReturn] := fun front => List.flatMap_append
  by_cases hlast : cs.getLast? = some '\r'
  · obtain ⟨front, rfl⟩ := List.getLast?_eq_some_iff.mp hlast
    rw [if_pos hlast, happend, List.getLast?_concat, if_pos rfl, List.dropLast_concat,
      List.dropLast_concat]
  · -- A line that ends in the byte would end in the character.
    have hbyte : ¬ (Text.utf8Chars cs).getLast? = some carriageReturn := by
      intro hbyte
      obtain ⟨bytes, hbytes⟩ := List.getLast?_eq_some_iff.mp hbyte
      obtain ⟨front, rfl, -⟩ := (Text.utf8Chars_eq_append_iff (by decide)).mp hbytes
      exact hlast List.getLast?_concat
    rw [if_neg hlast, if_neg hbyte]

/-- A line that a newline ends has the text of its bytes without the ending. -/
theorem toOption_lineText_append (line : Bytes) :
    (lineText (line ++ [newline])).toOption = (Text.ofUtf8 (dropReturn line)).toOption := by
  rw [lineText]
  cases hs : Text.ofUtf8 (line ++ [newline]) with
  | ok s =>
    have hbytes : Text.utf8Chars s.toList = line ++ [newline] := Text.ofUtf8_eq_ok_iff.mp hs
    obtain ⟨front, hfront, rfl⟩ := (Text.utf8Chars_eq_append_iff (by decide)).mp hbytes
    have hchars : s.toList = front ++ ['\n'] := hfront
    rw [dropReturn_utf8Chars, Text.ofUtf8_utf8Chars, Except.map, hchars, dropEnding_append]
  | error fault =>
    cases ht : Text.ofUtf8 (dropReturn line) with
    | error other => rfl
    | ok text =>
      -- The text with its ending would be the text of the line.
      have hbytes : Text.utf8 text = dropReturn line := Text.ofUtf8_eq_ok_iff.mp ht
      have hwhole : ∃ cs, Text.utf8Chars cs = line ++ [newline] := by
        rw [dropReturn] at hbytes
        split at hbytes
        · rename_i hlast
          obtain ⟨front, rfl⟩ := List.getLast?_eq_some_iff.mp hlast
          rw [List.dropLast_concat] at hbytes
          refine ⟨text.toList ++ ['\r', '\n'], ?_⟩
          rw [← hbytes, List.append_assoc]
          exact List.flatMap_append
        · refine ⟨text.toList ++ ['\n'], ?_⟩
          rw [← hbytes]
          exact List.flatMap_append
      obtain ⟨cs, hcs⟩ := hwhole
      rw [← hcs, Text.ofUtf8_utf8Chars] at hs
      cases hs

/-! ### Reading -/

/-- **One line more.** A line that is a text costs nothing but itself. -/
theorem readLines_cons_of_isText {raw line : Bytes}
    (h : (lineText raw).toOption = (Text.ofUtf8 line).toOption) (htext : isText line = true)
    (rest : List Bytes) :
    (readLines true (raw :: rest)).messages
        = (InboundMessage.ofBytes? line).toList ++ (readLines true rest).messages ∧
      (readLines true (raw :: rest)).fault = (readLines true rest).fault := by
  rw [isText] at htext
  cases hline : Text.ofUtf8 line with
  | error broken =>
    rw [hline] at htext
    cases htext
  | ok text =>
    have hraw : lineText raw = .ok text := by
      rw [hline] at h
      cases hr : lineText raw with
      | error broken =>
        rw [hr] at h
        cases h
      | ok other =>
        rw [hr] at h
        exact congrArg Except.ok (Option.some.inj h)
    have hmessage : InboundMessage.ofBytes? line = (InboundMessage.ofText text).toOption := by
      rw [InboundMessage.ofBytes?, hline]
    rw [hmessage, readLines, hraw]
    dsimp only
    -- A blank line is not read as a message either, so that nothing is lost with it.
    by_cases hblank : Text.isBlankText text = true
    · have hnone := InboundMessage.toOption_ofText_of_isBlankText hblank
      rw [if_pos hblank, hnone]
      exact ⟨rfl, rfl⟩
    · rw [if_neg hblank]
      cases InboundMessage.ofText text with
      | error fault => exact ⟨rfl, rfl⟩
      | ok message => exact ⟨rfl, rfl⟩

/-- A line that is no text ends the reading. -/
theorem readLines_cons_of_not_isText {raw line : Bytes}
    (h : (lineText raw).toOption = (Text.ofUtf8 line).toOption) (htext : ¬isText line = true)
    (rest : List Bytes) :
    (readLines true (raw :: rest)).messages = [] ∧
      ∃ broken, (readLines true (raw :: rest)).fault = some (.stream (.notUtf8 broken)) := by
  rw [isText, ← h] at htext
  cases hraw : lineText raw with
  | ok text =>
    rw [hraw] at htext
    exact absurd rfl htext
  | error broken =>
    rw [readLines, hraw]
    exact ⟨rfl, broken, rfl⟩

/-- What is read of raw lines, given the lines that they are without their endings. -/
structure ReadAs (raws : List Bytes) (lines : List Bytes) : Prop where
  messages : (readLines true raws).messages
    = (lines.takeWhile isText).filterMap InboundMessage.ofBytes?
  finished : (∀ line ∈ lines, isText line = true) → (readLines true raws).fault = none
  stopped : (∃ line ∈ lines, ¬isText line = true) →
    ∃ broken, (readLines true raws).fault = some (.stream (.notUtf8 broken))

theorem ReadAs.nil : ReadAs [] [] :=
  ⟨rfl, fun _ => rfl, fun ⟨_, hmem, _⟩ => by cases hmem⟩

/-- **Step.** One line before the others. -/
theorem ReadAs.cons {raw line : Bytes} {raws lines : List Bytes} (hrest : ReadAs raws lines)
    (h : (lineText raw).toOption = (Text.ofUtf8 line).toOption) :
    ReadAs (raw :: raws) (line :: lines) := by
  by_cases htext : isText line = true
  · obtain ⟨hmessages, hfault⟩ := readLines_cons_of_isText h htext raws
    refine ⟨?_, fun hall => ?_, fun hsome => ?_⟩
    · rw [hmessages, hrest.messages, List.takeWhile_cons_of_pos htext, List.filterMap_cons]
      cases InboundMessage.ofBytes? line <;> rfl
    · rw [hfault]
      exact hrest.finished fun other hmem => hall other (List.mem_cons_of_mem _ hmem)
    · rw [hfault]
      obtain ⟨other, hmem, hother⟩ := hsome
      rcases List.mem_cons.mp hmem with rfl | hmem
      · exact absurd htext hother
      · exact hrest.stopped ⟨other, hmem, hother⟩
  · -- A line that is no text ends the reading, whatever follows.
    obtain ⟨hmessages, hfault⟩ := readLines_cons_of_not_isText h htext raws
    refine ⟨?_, fun hall => absurd (hall line List.mem_cons_self) htext, fun _ => hfault⟩
    rw [hmessages, List.takeWhile_cons_of_neg htext]
    rfl

/-- The raw lines of a stream are read as its lines. -/
theorem readAs_rawLines (input : Bytes) : ReadAs (rawLines input) (lines input) := by
  induction input using induction_lines with
  | last line hline =>
    rw [rawLines_of_notMem hline, lines_of_notMem hline]
    split
    · exact .nil
    · exact ReadAs.nil.cons (toOption_lineText_of_notMem hline)
  | ended line rest hline ih =>
    rw [rawLines_append hline, lines_append hline]
    exact ih.cons (toOption_lineText_append line)

/-- **A stream.** The messages that are read are those of the lines before the first one that is
    no text, each line decoded by itself; the other ones of these lines are passed over.  The
    reading comes to the end of the stream if all its lines are texts, and otherwise stops at that
    line. -/
theorem readMessages_lines (input : Bytes) :
    (readMessages true input).messages
        = ((lines input).takeWhile isText).filterMap InboundMessage.ofBytes? ∧
      ((∀ line ∈ lines input, isText line = true) → (readMessages true input).fault = none) ∧
      ((∃ line ∈ lines input, ¬isText line = true) →
        ∃ broken, (readMessages true input).fault = some (.stream (.notUtf8 broken))) := by
  have hread := readAs_rawLines input
  exact ⟨hread.messages, hread.finished, hread.stopped⟩

/-- The lines of messages, as they are written. -/
theorem lines_written (messages : List InboundMessage) :
    lines (messages.map fun m => Text.utf8 m.toLine ++ [newline]).flatten
      = messages.map fun m => Text.utf8 m.toLine := by
  induction messages with
  | nil => rfl
  | cons m rest ih =>
    -- Neither of the bytes that mark an end is within a line.
    have hend : ∀ b : UInt8, b.toNat < 0x20 → b ∉ Text.utf8 m.toLine := fun b hb hmem =>
      absurd (InboundMessage.le_of_mem_toLine hmem) (Nat.not_le.mpr hb)
    have hreturn : dropReturn (Text.utf8 m.toLine) = Text.utf8 m.toLine :=
      if_neg fun hlast => hend carriageReturn (by decide) (List.mem_of_getLast? hlast)
    rw [List.map_cons, List.flatten_cons, List.append_assoc, List.singleton_append,
      lines_append (hend newline (by decide)), hreturn, ih]
    rfl

/-- **What a host writes** is read as its messages, and the reading comes to the end. -/
theorem readMessages_written (messages : List InboundMessage) :
    (readMessages true (messages.map fun m => Text.utf8 m.toLine ++ [newline]).flatten).messages
        = messages ∧
      (readMessages true (messages.map fun m => Text.utf8 m.toLine ++ [newline]).flatten).fault
        = none := by
  have hread := readAs_rawLines (messages.map fun m => Text.utf8 m.toLine ++ [newline]).flatten
  have htext : ∀ m : InboundMessage, isText (Text.utf8 m.toLine) = true := fun m => by
    rw [isText, Text.ofUtf8_utf8]
    rfl
  have hmessage : (InboundMessage.ofBytes? ∘ fun m : InboundMessage => Text.utf8 m.toLine)
      = some := by
    funext m
    rw [Function.comp_apply, InboundMessage.ofBytes?, Text.ofUtf8_utf8]
    dsimp only
    rw [InboundMessage.ofText_toLine]
    rfl
  rw [lines_written] at hread
  refine ⟨?_, hread.finished (List.forall_mem_map.mpr fun m _ => htext m)⟩
  have hall : (messages.map fun m => Text.utf8 m.toLine).takeWhile isText
      = messages.map fun m => Text.utf8 m.toLine :=
    List.takeWhile_eq_self_iff.mpr (List.forall_mem_map.mpr fun m _ => htext m)
  rw [readMessages, hread.messages, hall, List.filterMap_map, hmessage, List.filterMap_some]

/-- A byte that is no text, on a line of its own before a message. -/
def brokenLine : Bytes :=
  [0xFF, newline] ++ (Text.utf8 InboundMessage.rendered.toLine ++ [newline])

/-- A line that is no text costs the lines behind it: one of them is a message, and no message is
    read. -/
theorem brokenLine_loses_message :
    (lines brokenLine).filterMap InboundMessage.ofBytes? = [.rendered] ∧
      (readMessages true brokenLine).messages = [] ∧
      (readMessages true brokenLine).fault = some (.stream (.notUtf8 (.broken 0 1))) := by
  refine ⟨?_, rfl, rfl⟩
  decide +kernel

end Transport

end DocRelay
