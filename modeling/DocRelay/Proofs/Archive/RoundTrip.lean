import DocRelay.Proofs.Archive.Fields

namespace DocRelay.Archive

/-!
# Reading back an archive

An archive that was written within the limits of the format is read back.  Its end record is found
although contents and numbers may look like one, its central directory tells the entries and the
places of their local records, and every entry is opened there and has its contents.

* `WithinLimits` — the limits of the format;
* `CentralEntry.ofEntry`, `listing` — the entries as a central directory tells them;
* `parse_centralRecord`, `centralEntries_directoryFrom` — the central directory;
* `parse_endRecord`, `shift?_write` — the end record;
* `exists_places`, `openAt_cutShort` — where end records are looked for;
* `directory_write` — the whole archive;
* `locate_ofEntry`, `text_ofEntry` — the contents of an entry.
-/

/-- The limits of the format: fewer than 65535 entries, names shorter than 64 KiB, and an archive
    shorter than 4 GiB. -/
structure WithinLimits (entries : List Entry) : Prop where
  count : entries.length < 65535
  names : ∀ e ∈ entries, (Text.utf8 e.name).length < 65536
  size : (write entries).length < 0x100000000

/-- An entry as the central directory tells it, with the place of its local record. -/
def CentralEntry.ofEntry (e : Entry) (offset : Nat) : CentralEntry :=
  ⟨e.name, false, 0, (crc32 e.contents).toNat, e.contents.length, offset⟩

/-- Entries as the central directory tells them, the first local record at an offset. -/
def listing : Nat → List Entry → List CentralEntry
  | _, [] => []
  | offset, e :: rest => .ofEntry e offset :: listing (offset + (localRecord e).length) rest

theorem names_listing (offset : Nat) (entries : List Entry) :
    (listing offset entries).map (·.name) = entries.map (·.name) := by
  induction entries generalizing offset with
  | nil => rfl
  | cons e rest ih => exact congrArg (e.name :: ·) (ih _)

theorem fits_two {n : Nat} (h : n < 65536) : Field.Fits ⟨2, n⟩ := h

theorem fits_four {n : Nat} (h : n < 0x100000000) : Field.Fits ⟨4, n⟩ := h

/-- The flags of an entry: it is not encrypted. -/
theorem flags_cases (e : Entry) : flags e = 0 ∨ flags e = utf8Flag := by
  rw [flags]
  split
  · exact .inl rfl
  · exact .inr rfl

/-! ### The central directory -/

/-- **A central record** is read as the entry that it was written for. -/
theorem parse_centralRecord {bytes before after : Bytes} {e : Entry} {offset : Nat}
    (h : bytes = before ++ (centralRecord e offset ++ after))
    (hname : (nameBytes e).length < 65536) (hsize : e.contents.length < 0x100000000)
    (hoffset : offset < 0x100000000) :
    CentralEntry.parse bytes 0 before.length
      = some (.ofEntry e offset, before.length + (centralRecord e offset).length) := by
  have hfields : bytes
      = before ++ (spell (centralFields e offset) ++ (nameBytes e ++ after)) := by
    rw [h, centralRecord_eq]
    simp
  have hflags : flags e < 65536 := by
    rcases flags_cases e with hf | hf <;> rw [hf] <;> decide
  have hcrc : (crc32 e.contents).toNat < 0x100000000 := UInt32.toNat_lt _
  -- The numbers of the record that are read.
  have h8 : wordAt bytes (before.length + 8) 2 = flags e :=
    wordAt_field hfields rfl (fits_two hflags)
  have h10 : wordAt bytes (before.length + 10) 2 = 0 :=
    wordAt_field hfields rfl (fits_two (by decide))
  have h16 : wordAt bytes (before.length + 16) 4 = (crc32 e.contents).toNat :=
    wordAt_field hfields rfl (fits_four hcrc)
  have h20 : wordAt bytes (before.length + 20) 4 = e.contents.length :=
    wordAt_field hfields rfl (fits_four hsize)
  have h28 : wordAt bytes (before.length + 28) 2 = (nameBytes e).length :=
    wordAt_field hfields rfl (fits_two hname)
  have h30 : wordAt bytes (before.length + 30) 2 = 0 :=
    wordAt_field hfields rfl (fits_two (by decide))
  have h32 : wordAt bytes (before.length + 32) 2 = 0 :=
    wordAt_field hfields rfl (fits_two (by decide))
  have h42 : wordAt bytes (before.length + 42) 4 = offset :=
    wordAt_field hfields rfl (fits_four hoffset)
  have hlength : before.length + 46 + (nameBytes e).length ≤ bytes.length := by
    rw [h]
    simp
    omega
  have hmark : centralMark.isPrefixOf (bytes.drop before.length) = true := by
    rw [h, List.drop_left, List.isPrefixOf_iff_prefix]
    exact (centralMark_isPrefix e offset).trans (List.prefix_append _ _)
  have hspelled : (bytes.drop (before.length + 46)).take (nameBytes e).length = nameBytes e := by
    have hplace : (before ++ spell (centralFields e offset)).length = before.length + 46 := by
      rw [List.length_append, length_centralFields]
    rw [hfields, ← List.append_assoc, ← hplace, List.drop_left, List.take_left]
  have hunencrypted : (flags e % 2 == 1) = false := by
    rcases flags_cases e with hf | hf <;> rw [hf] <;> decide
  -- The record is neither cut short nor without its mark.
  have hguard : (decide (bytes.length < before.length + 46)
      || decide (bytes.length < before.length + 46 + (nameBytes e).length + 0 + 0)
      || !centralMark.isPrefixOf (bytes.drop before.length)) = false := by
    rw [hmark]
    simp
    omega
  rw [CentralEntry.parse]
  simp only [h8, h10, h16, h20, h28, h30, h32, h42, hguard, Bool.false_eq_true, if_false, hspelled,
    readName_utf8, hunencrypted]
  rw [length_centralRecord, CentralEntry.ofEntry]
  simp only [Nat.add_zero, Nat.add_assoc]

/-- **The central directory** is read as the listing of the entries. -/
theorem centralEntries_directoryFrom {bytes before after : Bytes} {entries : List Entry}
    {offset : Nat} (h : bytes = before ++ (directoryFrom offset entries ++ after))
    (hnames : ∀ e ∈ entries, (nameBytes e).length < 65536)
    (hlocals : offset + (localPart entries).length < 0x100000000) :
    centralEntries bytes 0 entries.length before.length = some (listing offset entries) := by
  induction entries generalizing offset before with
  | nil => rfl
  | cons e rest ih =>
    have hlength : (localPart (e :: rest)).length
        = (localRecord e).length + (localPart rest).length := by
      simp [localPart]
    have hsize : e.contents.length ≤ (localRecord e).length := by
      rw [length_localRecord]
      omega
    have hrecord : bytes = before ++ (centralRecord e offset
        ++ (directoryFrom (offset + (localRecord e).length) rest ++ after)) := by
      rw [h, directoryFrom, List.append_assoc]
    have hparse := parse_centralRecord hrecord (hnames e List.mem_cons_self) (by omega) (by omega)
    -- The record that was read now comes before the place, with all that came before it.
    have hbehind : bytes = (before ++ centralRecord e offset)
        ++ (directoryFrom (offset + (localRecord e).length) rest ++ after) := by
      rw [hrecord, List.append_assoc]
    have hnext := ih hbehind (fun other hother => hnames other (List.mem_cons_of_mem _ hother))
      (by omega)
    rw [List.length_append] at hnext
    rw [List.length_cons, centralEntries, hparse]
    show (centralEntries bytes 0 rest.length _).bind _ = _
    rw [hnext]
    rfl

/-! ### The end record -/

/-- What comes before the end record of an archive. -/
def frontPart (entries : List Entry) : Bytes :=
  localPart entries ++ directoryFrom 0 entries

/-- The end record of an archive. -/
def lastRecord (entries : List Entry) : Bytes :=
  endRecord entries.length (directoryFrom 0 entries).length (localPart entries).length

theorem write_eq (entries : List Entry) : write entries = frontPart entries ++ lastRecord entries :=
  rfl

theorem length_write (entries : List Entry) :
    (write entries).length = (frontPart entries).length + 22 := by
  rw [write_eq, List.length_append, lastRecord, length_endRecord]

/-- **The end record** is read as it was written. -/
theorem parse_endRecord (front : Bytes) {count offset : Nat} (size : Nat) (hcount : count < 65536)
    (hoffset : offset < 0x100000000) :
    EndRecord.parse (front ++ endRecord count size offset) front.length
      = .ok ⟨front.length, 0, 0, count, count, offset⟩ := by
  have hfields : front ++ endRecord count size offset
      = front ++ (spell (endFields count size offset) ++ []) := by
    rw [endRecord_eq]
  generalize hbytes : front ++ endRecord count size offset = bytes at hfields
  -- The fields stand one behind the other, so each is read at the sum of the widths before it.
  have h4 : wordAt bytes (front.length + 4) 2 = 0 :=
    wordAt_field hfields rfl (fits_two (by decide))
  have h6 : wordAt bytes (front.length + 6) 2 = 0 :=
    wordAt_field hfields rfl (fits_two (by decide))
  have h8 : wordAt bytes (front.length + 8) 2 = count :=
    wordAt_field hfields rfl (fits_two hcount)
  have h10 : wordAt bytes (front.length + 10) 2 = count :=
    wordAt_field hfields rfl (fits_two hcount)
  have h16 : wordAt bytes (front.length + 16) 4 = offset :=
    wordAt_field hfields rfl (fits_four hoffset)
  have h20 : wordAt bytes (front.length + 20) 2 = 0 :=
    wordAt_field hfields rfl (fits_two (by decide))
  have hlength : bytes.length = front.length + 22 := by
    rw [← hbytes, List.length_append, length_endRecord]
  have hwhole : ¬bytes.length < front.length + 22 := by omega
  rw [EndRecord.parse]
  simp only [h4, h6, h8, h10, h16, h20, Nat.add_zero, if_neg hwhole]

/-- Places behind the start of the last record are too near the end for a record. -/
theorem parse_cutShort {bytes : Bytes} {place : Nat} (h : bytes.length < place + 22) :
    EndRecord.parse bytes place = .error .cutShort := by
  rw [EndRecord.parse, if_pos h]

/-! ### Where marks stand -/

/-- The places of a mark in the rest of a string come behind those that begin before it. -/
theorem exists_places (mark front rest : Bytes) (offset : Nat) :
    ∃ earlier, placesOf mark offset (front ++ rest)
      = earlier ++ placesOf mark (offset + front.length) rest := by
  induction front generalizing offset with
  | nil => exact ⟨[], rfl⟩
  | cons b front ih =>
    obtain ⟨earlier, hearlier⟩ := ih (offset + 1)
    have hsum : offset + 1 + front.length = offset + (b :: front).length := by
      rw [List.length_cons]
      omega
    rw [hsum] at hearlier
    rw [List.cons_append, placesOf, hearlier]
    split
    · exact ⟨offset :: earlier, rfl⟩
    · exact ⟨earlier, rfl⟩

/-- No place comes before the first byte. -/
theorem le_of_mem_placesOf {mark bytes : Bytes} {offset place : Nat}
    (h : place ∈ placesOf mark offset bytes) : offset ≤ place := by
  induction bytes generalizing offset with
  | nil => cases h
  | cons b rest ih =>
    rw [placesOf] at h
    split at h
    · rcases List.mem_cons.mp h with rfl | h
      · exact Nat.le_refl _
      · exact Nat.le_of_succ_le (ih h)
    · exact Nat.le_of_succ_le (ih h)

/-- A string that begins with a mark has it at its first place, and then at later ones. -/
theorem exists_later {mark bytes : Bytes} (hmark : mark <+: bytes) (hne : bytes ≠ [])
    (offset : Nat) :
    ∃ later, placesOf mark offset bytes = offset :: later ∧ ∀ place ∈ later, offset < place := by
  obtain ⟨b, rest, rfl⟩ := List.exists_cons_of_ne_nil hne
  refine ⟨placesOf mark (offset + 1) rest, ?_, fun place hplace => le_of_mem_placesOf hplace⟩
  rw [placesOf, if_pos (List.isPrefixOf_iff_prefix.mpr hmark)]

/-- The first central record stands where the end record says, so the archive was not moved. -/
theorem shift?_write (entries : List Entry) :
    EndRecord.shift? ⟨(frontPart entries).length, 0, 0, entries.length, entries.length,
      (localPart entries).length⟩ (write entries) = some 0 := by
  have hfront : (frontPart entries).length
      = (localPart entries).length + (directoryFrom 0 entries).length := List.length_append
  cases entries with
  | nil => rfl
  | cons e rest =>
    have hmark : centralMark <+: directoryFrom 0 (e :: rest) :=
      (centralMark_isPrefix e 0).trans (List.prefix_append _ _)
    have hne : directoryFrom 0 (e :: rest) ≠ [] := by
      intro hnil
      rw [hnil, List.prefix_nil] at hmark
      cases hmark
    obtain ⟨later, hplaces, -⟩ := exists_later hmark hne 0
    have hbefore : ¬(frontPart (e :: rest)).length ≤ (localPart (e :: rest)).length := by
      have hpos := List.length_pos_iff.mpr hne
      omega
    -- The mark is looked for between the told place and the end record: in the directory alone.
    have hbetween : ((write (e :: rest)).drop (localPart (e :: rest)).length).take
        ((frontPart (e :: rest)).length - (localPart (e :: rest)).length)
        = directoryFrom 0 (e :: rest) := by
      rw [hfront, write_eq, frontPart, List.append_assoc, List.drop_left, Nat.add_sub_cancel_left,
        List.take_left]
    rw [EndRecord.shift?]
    simp only [List.length_cons, if_neg hbefore, hbetween, hplaces]
    rfl

/-- Places at which a record would be cut short are passed. -/
theorem openAt_cutShort {bytes : Bytes} {places : List Nat}
    (h : ∀ place ∈ places, bytes.length < place + 22) (fault : Option Fault)
    (earlier : List Nat) :
    ∃ other, openAt bytes fault (places ++ earlier) = openAt bytes other earlier := by
  induction places generalizing fault with
  | nil => exact ⟨fault, rfl⟩
  | cons place places ih =>
    rw [List.cons_append, openAt, parse_cutShort (h place List.mem_cons_self)]
    exact ih (fun other hother => h other (List.mem_cons_of_mem _ hother)) _

/-- The end record is looked for at its own place after some where it would be cut short, however
    many contents and numbers look like its mark. -/
theorem exists_places_write (entries : List Entry) :
    ∃ later earlier, (placesOf endMark 0 (write entries)).reverse
        = later ++ (frontPart entries).length :: earlier ∧
      ∀ place ∈ later, (write entries).length < place + 22 := by
  have hmark : endMark <+: lastRecord entries := endMark_isPrefix _ _ _
  have hne : lastRecord entries ≠ [] := by
    intro hnil
    rw [hnil, List.prefix_nil] at hmark
    cases hmark
  obtain ⟨earlier, hearlier⟩ := exists_places endMark (frontPart entries) (lastRecord entries) 0
  obtain ⟨later, hlater, hbehind⟩ := exists_later hmark hne (0 + (frontPart entries).length)
  refine ⟨later.reverse, earlier.reverse, ?_, fun place hplace => ?_⟩
  · rw [write_eq, hearlier, hlater]
    simp
  · have hplace := hbehind place (List.mem_reverse.mp hplace)
    rw [length_write]
    omega

/-- **The end record is found**, and leads to the listing of the entries. -/
theorem openAt_write {entries : List Entry} (h : WithinLimits entries) :
    openAt (write entries) none (placesOf endMark 0 (write entries)).reverse
      = .ok (listing 0 entries) := by
  have hlocals : (localPart entries).length < 0x100000000 := by
    have hsize := h.size
    rw [length_write, frontPart, List.length_append] at hsize
    omega
  have hparse : EndRecord.parse (write entries) (frontPart entries).length
      = .ok ⟨(frontPart entries).length, 0, 0, entries.length, entries.length,
        (localPart entries).length⟩ :=
    parse_endRecord (frontPart entries) _ (Nat.lt_trans h.count (by decide)) hlocals
  have hentries : centralEntries (write entries) 0 entries.length (localPart entries).length
      = some (listing 0 entries) :=
    centralEntries_directoryFrom (List.append_assoc _ _ _) h.names (by rwa [Nat.zero_add])
  -- The search goes backwards, so what looks like an end record in a file comes too late.
  obtain ⟨later, earlier, hplaces, hcut⟩ := exists_places_write entries
  obtain ⟨other, hskip⟩ := openAt_cutShort hcut none ((frontPart entries).length :: earlier)
  rw [hplaces, hskip, openAt, hparse]
  simp only [shift?_write]
  rw [EndRecord.entries?]
  simp only [bne_self_eq_false, Bool.false_eq_true, if_false, Nat.add_zero, hentries]

/-! ### Names -/

/-- A new name comes last. -/
theorem enter_of_notMem {entries : List CentralEntry} {e : CentralEntry}
    (h : e.name ∉ entries.map (·.name)) : enter entries e = entries ++ [e] := by
  induction entries with
  | nil => rfl
  | cons first rest ih =>
    rw [List.map_cons, List.mem_cons, not_or] at h
    rw [enter, if_neg (Ne.symm h.1), ih h.2]
    rfl

/-- Entries with different names stay as they are. -/
theorem collapseNames_eq_self {entries : List CentralEntry}
    (distinct : (entries.map (·.name)).Nodup) : collapseNames entries = entries := by
  -- An entry is compared with all that were entered before it.
  suffices h : ∀ done : List CentralEntry, ((done ++ entries).map (·.name)).Nodup →
      entries.foldl enter done = done ++ entries from h [] distinct
  clear distinct
  induction entries with
  | nil => exact fun done _ => (List.append_nil done).symm
  | cons e rest ih =>
    intro done hnodup
    have hnew : e.name ∉ done.map (·.name) := by
      rw [List.map_append, List.map_cons] at hnodup
      intro hmem
      exact (List.nodup_append.mp hnodup).2.2 e.name hmem e.name List.mem_cons_self rfl
    have hrest : done ++ e :: rest = (done ++ [e]) ++ rest := by simp
    rw [List.foldl_cons, enter_of_notMem hnew, hrest]
    rw [hrest] at hnodup
    exact ih (done ++ [e]) hnodup

/-- **The directory** of an archive tells its entries, if their names are different. -/
theorem directory_write {entries : List Entry} (h : WithinLimits entries)
    (distinct : (entries.map (·.name)).Nodup) :
    directory (write entries) = .ok (listing 0 entries) := by
  rw [directory, openAt_write h]
  show Except.ok (collapseNames (listing 0 entries)) = _
  rw [collapseNames_eq_self (by rwa [names_listing])]

/-! ### Contents -/

section Contents

variable {bytes before after : Bytes} {e : Entry} (h : bytes = before ++ (localRecord e ++ after))

include h

/-- **An entry is opened** at its local record, and its contents begin behind its name. -/
theorem locate_ofEntry (hname : (nameBytes e).length < 65536) :
    (CentralEntry.ofEntry e before.length).locate bytes
      = .ok (before.length + 30 + (nameBytes e).length) := by
  have hfields : bytes
      = before ++ (spell (localFields e) ++ (nameBytes e ++ (e.contents ++ after))) := by
    rw [h, localRecord_eq]
    simp
  -- These two lengths say where the contents begin.
  have h26 : wordAt bytes (before.length + 26) 2 = (nameBytes e).length :=
    wordAt_field hfields rfl (fits_two hname)
  have h28 : wordAt bytes (before.length + 28) 2 = 0 :=
    wordAt_field hfields rfl (fits_two (by decide))
  have hlength : ¬bytes.length < before.length + 30 := by
    rw [h]
    simp
    omega
  have hmark : localMark.isPrefixOf (bytes.drop before.length) = true := by
    rw [h, List.drop_left, List.isPrefixOf_iff_prefix]
    exact (localMark_isPrefix e).trans (List.prefix_append _ _)
  rw [CentralEntry.locate, CentralEntry.ofEntry]
  simp only [Bool.false_eq_true, if_false, if_neg hlength, hmark, Bool.not_true, h26, h28,
    Nat.add_zero]
  rfl

/-- **The contents of an entry** pass their check, and are its text if they are one. -/
theorem text_ofEntry :
    (CentralEntry.ofEntry e before.length).text bytes (before.length + 30 + (nameBytes e).length)
      = (Text.ofUtf8 e.contents).mapError fun _ => .notText := by
  have hcontents : (bytes.drop (before.length + 30 + (nameBytes e).length)).take
      e.contents.length = e.contents := by
    have hplace : (before ++ (spell (localFields e) ++ nameBytes e)).length
        = before.length + 30 + (nameBytes e).length := by
      rw [List.length_append, List.length_append, length_localFields, Nat.add_assoc]
    have hbytes : bytes
        = (before ++ (spell (localFields e) ++ nameBytes e)) ++ (e.contents ++ after) := by
      rw [h, localRecord_eq]
      simp
    rw [hbytes, ← hplace, List.drop_left, List.take_left]
  rw [CentralEntry.text, CentralEntry.ofEntry]
  simp only [hcontents, bne_self_eq_false, Bool.false_eq_true, if_false]
  cases Text.ofUtf8 e.contents <;> rfl

end Contents

end DocRelay.Archive
