import DocRelay.Archive.Read
import DocRelay.Proofs.Text.Utf8

namespace DocRelay.Archive

/-!
# The fields of records

Every record of an archive begins with numbers of fixed widths, one behind the other, and each of
them is read back at its place if it fits its width.

* `Field`, `spell`, `length_spell` — numbers with widths, and their bytes;
* `fieldAt?`, `wordAt_field` — the number at a place, which is what is read there;
* `localFields`, `centralFields`, `endFields` — the fields of the three kinds of records;
* `localRecord_eq`, `centralRecord_eq`, `endRecord_eq` — the records, spelled by their fields;
* `readName_utf8` — names are read back, too.
-/

/-- A number that is written in so many bytes. -/
structure Field where
  width : Nat
  value : Nat

/-- The number fits its width. -/
def Field.Fits (f : Field) : Prop :=
  f.value < 1 <<< (8 * f.width)

/-- The bytes of fields. -/
def spell (fields : List Field) : Bytes :=
  fields.flatMap fun f => Bytes.ofNat f.width f.value

/-- The field that begins at a place. -/
def fieldAt? : List Field → Nat → Option Field
  | [], _ => none
  | f :: rest, place =>
    if place = 0 then some f
    else if place < f.width then none
    else fieldAt? rest (place - f.width)

/-- How many bytes there are of fields with these widths. -/
def total : List Nat → Nat
  | [] => 0
  | width :: widths => width + total widths

/-- Fields are as long as their widths together. -/
theorem length_spell (fields : List Field) :
    (spell fields).length = total (fields.map (·.width)) := by
  induction fields with
  | nil => rfl
  | cons f fields ih =>
    rw [spell, List.flatMap_cons, List.length_append, Bytes.length_ofNat, ← spell, ih]
    rfl

/-! ### Words -/

/-- A word is read where it was written. -/
theorem wordAt_ofNat {width n : Nat} (h : n < 1 <<< (8 * width)) (rest : Bytes) :
    wordAt (Bytes.ofNat width n ++ rest) 0 width = n := by
  have htake : (Bytes.ofNat width n ++ rest).take width = Bytes.ofNat width n :=
    List.take_left' (Bytes.length_ofNat width n)
  rw [wordAt, List.drop_zero, htake, Bytes.toNat_ofNat, Nat.mod_eq_of_lt h]

/-- What comes before a word does not matter. -/
theorem wordAt_append (front rest : Bytes) (place width : Nat) :
    wordAt (front ++ rest) (front.length + place) width = wordAt rest place width := by
  rw [wordAt, wordAt, List.drop_length_add_append]

/-- The field at a place is read there. -/
theorem wordAt_spell {fields : List Field} {place : Nat} {f : Field}
    (hfield : fieldAt? fields place = some f) (hfits : f.Fits) (rest : Bytes) :
    wordAt (spell fields ++ rest) place f.width = f.value := by
  induction fields generalizing place with
  | nil => cases hfield
  | cons first fields ih =>
    have hspell : spell (first :: fields) ++ rest
        = Bytes.ofNat first.width first.value ++ (spell fields ++ rest) := by
      simp [spell]
    rw [hspell]
    rw [fieldAt?] at hfield
    split at hfield
    · rename_i hzero
      obtain rfl := Option.some.inj hfield
      rw [hzero]
      exact wordAt_ofNat hfits _
    · split at hfield
      · cases hfield
      · -- The place lies behind the first field, and counts from there.
        rename_i hplace
        have hbehind := wordAt_append (Bytes.ofNat first.width first.value)
          (spell fields ++ rest) (place - first.width) f.width
        have hsum : first.width + (place - first.width) = place := by omega
        rw [Bytes.length_ofNat, hsum] at hbehind
        rw [hbehind]
        exact ih hfield

/-- **Reading a field** of a record somewhere in an archive. -/
theorem wordAt_field {bytes before rest : Bytes} {fields : List Field}
    (h : bytes = before ++ (spell fields ++ rest)) {place width value : Nat}
    (hfield : fieldAt? fields place = some ⟨width, value⟩) (hfits : Field.Fits ⟨width, value⟩) :
    wordAt bytes (before.length + place) width = value := by
  rw [h, wordAt_append]
  exact wordAt_spell hfield hfits rest

/-! ### Records -/

/-- The flags of an entry. -/
def flags (e : Entry) : Nat :=
  if e.name.toList.all (·.toNat < 0x80) then 0 else utf8Flag

/-- The bytes of the name of an entry. -/
def nameBytes (e : Entry) : Bytes := Text.utf8 e.name

/-- The fields that the local and the central record share, from the version needed on. -/
def commonFields (e : Entry) : List Field :=
  [⟨2, 10⟩, ⟨2, flags e⟩, ⟨2, 0⟩, ⟨2, 0⟩, ⟨2, 0x0021⟩, ⟨4, (crc32 e.contents).toNat⟩,
    ⟨4, e.contents.length⟩, ⟨4, e.contents.length⟩, ⟨2, (nameBytes e).length⟩]

/-- The fields of a local record, its mark included. -/
def localFields (e : Entry) : List Field :=
  ⟨4, 0x04034B50⟩ :: (commonFields e ++ [⟨2, 0⟩])

/-- The fields of a central record, its mark included. -/
def centralFields (e : Entry) (offset : Nat) : List Field :=
  ⟨4, 0x02014B50⟩ :: ⟨2, 0x030A⟩ :: (commonFields e
    ++ [⟨2, 0⟩, ⟨2, 0⟩, ⟨2, 0⟩, ⟨2, 0⟩, ⟨4, 0x81A40000⟩, ⟨4, offset⟩])

/-- The fields of the end record, its mark included. -/
def endFields (count size offset : Nat) : List Field :=
  [⟨4, 0x06054B50⟩, ⟨2, 0⟩, ⟨2, 0⟩, ⟨2, count⟩, ⟨2, count⟩, ⟨4, size⟩, ⟨4, offset⟩, ⟨2, 0⟩]

theorem localRecord_eq (e : Entry) :
    localRecord e = spell (localFields e) ++ (nameBytes e ++ e.contents) := by
  have hmark : localMark = Bytes.ofNat 4 0x04034B50 := by decide
  simp only [localRecord, sharedFields, hmark, localFields, commonFields, spell, nameBytes, flags,
    List.flatMap_cons, List.flatMap_nil, List.cons_append, List.nil_append, List.append_assoc]

theorem centralRecord_eq (e : Entry) (offset : Nat) :
    centralRecord e offset = spell (centralFields e offset) ++ nameBytes e := by
  have hmark : centralMark = Bytes.ofNat 4 0x02014B50 := by decide
  simp only [centralRecord, sharedFields, hmark, centralFields, commonFields, spell, nameBytes,
    flags, List.flatMap_cons, List.flatMap_nil, List.cons_append, List.nil_append,
    List.append_assoc]

theorem endRecord_eq (count size offset : Nat) :
    endRecord count size offset = spell (endFields count size offset) ++ [] := by
  have hmark : endMark = Bytes.ofNat 4 0x06054B50 := by decide
  simp only [endRecord, hmark, endFields, spell, List.flatMap_cons, List.flatMap_nil,
    List.append_assoc, List.append_nil]

theorem length_localFields (e : Entry) : (spell (localFields e)).length = 30 := by
  have hwidths : (localFields e).map (·.width) = [4, 2, 2, 2, 2, 2, 4, 4, 4, 2, 2] := rfl
  rw [length_spell, hwidths]
  rfl

theorem length_centralFields (e : Entry) (offset : Nat) :
    (spell (centralFields e offset)).length = 46 := by
  have hwidths : (centralFields e offset).map (·.width)
      = [4, 2, 2, 2, 2, 2, 2, 4, 4, 4, 2, 2, 2, 2, 2, 4, 4] := rfl
  rw [length_spell, hwidths]
  rfl

@[simp] theorem length_localRecord (e : Entry) :
    (localRecord e).length = 30 + (nameBytes e).length + e.contents.length := by
  rw [localRecord_eq, List.length_append, List.length_append, length_localFields, Nat.add_assoc]

@[simp] theorem length_centralRecord (e : Entry) (offset : Nat) :
    (centralRecord e offset).length = 46 + (nameBytes e).length := by
  rw [centralRecord_eq, List.length_append, length_centralFields]

@[simp] theorem length_endRecord (count size offset : Nat) :
    (endRecord count size offset).length = 22 := by
  rw [endRecord_eq, List.append_nil, length_spell]
  rfl

/-- A record begins with its mark. -/
theorem localMark_isPrefix (e : Entry) : localMark <+: localRecord e := by
  rw [localRecord]
  simp only [List.append_assoc]
  exact List.prefix_append _ _

theorem centralMark_isPrefix (e : Entry) (offset : Nat) :
    centralMark <+: centralRecord e offset := by
  rw [centralRecord]
  simp only [List.append_assoc]
  exact List.prefix_append _ _

theorem endMark_isPrefix (count size offset : Nat) :
    endMark <+: endRecord count size offset := by
  rw [endRecord]
  simp only [List.append_assoc]
  exact List.prefix_append _ _

/-! ### Names -/

/-- A name of ASCII characters is the same in the code page. -/
theorem ofCodepage_utf8 {name : String} (h : name.toList.all (·.toNat < 0x80) = true) :
    ofCodepage (Text.utf8 name) = name := by
  have hchars : ∀ cs : List Char, cs.all (·.toNat < 0x80) = true →
      (Text.utf8Chars cs).map codepageChar = cs := by
    intro cs
    induction cs with
    | nil => exact fun _ => rfl
    | cons c cs ih =>
      intro h
      simp only [List.all_cons, Bool.and_eq_true, decide_eq_true_eq] at h
      have hbyte : (UInt8.ofNat c.toNat).toNat = c.toNat := Text.toNat_byte (by omega)
      have hc : codepageChar (UInt8.ofNat c.toNat) = c := by
        rw [codepageChar, hbyte, if_pos h.1, Char.ofNat_toNat]
      rw [Text.utf8Chars, List.flatMap_cons, Text.utf8EncodeChar_of_ascii h.1, List.map_append,
        List.map_cons, hc]
      exact congrArg (c :: ·) (ih h.2)
  rw [ofCodepage, Text.utf8, hchars _ h, String.ofList_toList]

/-- The text of a name whose flags are those of the entry. -/
theorem readName_utf8 (e : Entry) :
    (if flags e / utf8Flag % 2 == 1 then Text.ofUtf8Lossy (nameBytes e)
      else ofCodepage (nameBytes e)) = e.name := by
  rw [flags]
  -- Without the flag the name is of the code page, so it has ASCII characters only.
  split
  · rename_i h
    exact ofCodepage_utf8 h
  · show Text.ofUtf8Lossy (Text.utf8 e.name) = e.name
    exact Text.ofUtf8Lossy_utf8 e.name

end DocRelay.Archive
