import DocRelay.Archive.Basic
import DocRelay.Archive.Codepage
import DocRelay.Table

namespace DocRelay.Archive

/-!
# Reading archives

An archive is read from its end: the last end record whose central directory can be found and
read tells what is in it.  Bytes before the archive or behind it do not matter; places are
counted from where the central directory is found.

* `Fault` — why an archive or one of its entries cannot be read;
* `EndRecord.parse`, `CentralEntry.parse` — the records;
* `directory` — the entries of the central directory;
* `CentralEntry.locate` — where the contents of an entry begin; `CentralEntry.text` its text.
-/

/-- Why an archive or one of its entries cannot be read. -/
inductive Fault where
  /-- There is no end record with a central directory. -/
  | noEndRecord
  /-- A record is cut short. -/
  | cutShort
  /-- The comment of the end record is cut short. -/
  | commentCutShort
  /-- Where a local record should be there is none. -/
  | badLocalRecord
  /-- The contents are not stored as they are. -/
  | unsupportedMethod
  /-- The contents are encrypted. -/
  | encrypted
  /-- A name is used twice. -/
  | duplicateName (name : String)
  /-- The contents do not have their check sum. -/
  | badCheckSum
  /-- The contents are no text. -/
  | notText
deriving DecidableEq, Repr

/-- The wording of a fault. -/
def Fault.message : Fault → String
  | .noEndRecord => "zip error: invalid Zip archive: Could not find EOCD"
  | .cutShort => "zip error: i/o error"
  | .commentCutShort => "zip error: invalid Zip archive: EOCD comment exceeds file boundary"
  | .badLocalRecord => "zip error: invalid Zip archive: Invalid local file header"
  | .unsupportedMethod =>
    "zip error: unsupported Zip archive: Compression method not supported"
  | .encrypted =>
    "zip error: unsupported Zip archive: Password required to decrypt file"
  | .duplicateName name => "zip error: invalid Zip archive: Duplicate filename: " ++ name
  | .badCheckSum => "IO error: Invalid checksum"
  | .notText => "IO error: stream did not contain valid UTF-8"

/-- The number of `width` bytes at an offset. -/
def wordAt (bytes : Bytes) (offset width : Nat) : Nat :=
  Bytes.toNat ((bytes.drop offset).take width)

/-- The places at which `mark` stands, in increasing order, counted from `offset`. -/
def placesOf (mark : Bytes) : Nat → Bytes → List Nat
  | _, [] => []
  | offset, b :: rest =>
    if mark.isPrefixOf (b :: rest) then offset :: placesOf mark (offset + 1) rest
    else placesOf mark (offset + 1) rest

/-- What the end record says. -/
structure EndRecord where
  /-- Where the record begins. -/
  offset : Nat
  disk : Nat
  directoryDisk : Nat
  /-- The number of entries on this disk. -/
  count : Nat
  /-- The number of entries on all disks. -/
  total : Nat
  /-- Where the central directory begins, from the start of the archive. -/
  directoryOffset : Nat

/-- The end record at an offset, all of it with its comment. -/
def EndRecord.parse (bytes : Bytes) (offset : Nat) : Except Fault EndRecord :=
  if bytes.length < offset + 22 then .error .cutShort
  else if bytes.length < offset + 22 + wordAt bytes (offset + 20) 2 then .error .commentCutShort
  else
    .ok {
      offset := offset
      disk := wordAt bytes (offset + 4) 2
      directoryDisk := wordAt bytes (offset + 6) 2
      count := wordAt bytes (offset + 8) 2
      total := wordAt bytes (offset + 10) 2
      directoryOffset := wordAt bytes (offset + 16) 4 }

/-- How far the archive is moved by bytes before it: the central directory is the first record
    of its kind from its stated place on and before the end record. -/
def EndRecord.shift? (r : EndRecord) (bytes : Bytes) : Option Nat :=
  if r.total == 0 then some (r.offset - r.directoryOffset)
  else if r.offset ≤ r.directoryOffset then none
  else
    let between := (bytes.drop r.directoryOffset).take (r.offset - r.directoryOffset)
    (placesOf centralMark 0 between).head?

/-- An entry as the central directory tells it. -/
structure CentralEntry where
  name : String
  encrypted : Bool
  method : Nat
  crc : Nat
  size : Nat
  /-- Where the local record begins. -/
  offset : Nat

/-- The entry of the record at an offset, and where the next record begins; places are moved by
    `shift`. -/
def CentralEntry.parse (bytes : Bytes) (shift offset : Nat) : Option (CentralEntry × Nat) :=
  let nameLength := wordAt bytes (offset + 28) 2
  let extraLength := wordAt bytes (offset + 30) 2
  let commentLength := wordAt bytes (offset + 32) 2
  let next := offset + 46 + nameLength + extraLength + commentLength
  if bytes.length < offset + 46 || bytes.length < next
      || !centralMark.isPrefixOf (bytes.drop offset) then none
  else
    let flags := wordAt bytes (offset + 8) 2
    let nameBytes := (bytes.drop (offset + 46)).take nameLength
    some ({
      name :=
        if flags / utf8Flag % 2 == 1 then Text.ofUtf8Lossy nameBytes else ofCodepage nameBytes
      encrypted := flags % 2 == 1
      method := wordAt bytes (offset + 10) 2
      crc := wordAt bytes (offset + 16) 4
      size := wordAt bytes (offset + 20) 4
      offset := wordAt bytes (offset + 42) 4 + shift }, next)

/-- The entries of so many records from an offset on. -/
def centralEntries (bytes : Bytes) (shift : Nat) : Nat → Nat → Option (List CentralEntry)
  | 0, _ => some []
  | count + 1, offset => do
    let (e, next) ← CentralEntry.parse bytes shift offset
    let others ← centralEntries bytes shift count next
    return e :: others

/-- The entries that an end record leads to. -/
def EndRecord.entries? (r : EndRecord) (bytes : Bytes) (shift : Nat) :
    Option (List CentralEntry) :=
  -- An archive on several disks is not read.
  if r.disk != r.directoryDisk then none
  else centralEntries bytes shift r.count (r.directoryOffset + shift)

/-- The entries that the first usable of the end records at some places leads to.  If there is
    none, a record that was cut short is the fault, unless the directory of a later record was
    found but could not be read. -/
def openAt (bytes : Bytes) : Option Fault → List Nat → Except Fault (List CentralEntry)
  | fault, [] => .error (fault.getD .noEndRecord)
  | fault, place :: earlier =>
    match EndRecord.parse bytes place with
    | .error f => openAt bytes (fault.or (some f)) earlier
    | .ok r =>
      match r.shift? bytes with
      | none => openAt bytes fault earlier
      | some shift =>
        match r.entries? bytes shift with
        | some entries => .ok entries
        -- A record that was cut short behind this one is forgotten.
        | none => openAt bytes none earlier

/-- The entries with one more: it takes the place of an earlier one of its name. -/
def enter (entries : List CentralEntry) (e : CentralEntry) : List CentralEntry :=
  match entries with
  | [] => [e]
  | first :: rest => if first.name = e.name then e :: rest else first :: enter rest e

/-- The entries with one name each: the last record of a name counts, at the place of the
    first. -/
def collapseNames (entries : List CentralEntry) : List CentralEntry :=
  entries.foldl enter []

/-- The entries of an archive, in the order of its central directory. -/
def directory (bytes : Bytes) : Except Fault (List CentralEntry) :=
  (openAt bytes none (placesOf endMark 0 bytes).reverse).map collapseNames

/-- Where the contents of an entry begin, if it can be read at all. -/
def CentralEntry.locate (e : CentralEntry) (bytes : Bytes) : Except Fault Nat :=
  if e.encrypted then .error .encrypted
  else if bytes.length < e.offset + 30 then .error .cutShort
  else if !localMark.isPrefixOf (bytes.drop e.offset) then .error .badLocalRecord
  else if e.method != 0 then .error .unsupportedMethod
  else
    .ok (e.offset + 30 + wordAt bytes (e.offset + 26) 2 + wordAt bytes (e.offset + 28) 2)

/-- The text of an entry whose contents begin at an offset. -/
def CentralEntry.text (e : CentralEntry) (bytes : Bytes) (start : Nat) : Except Fault String :=
  let contents := (bytes.drop start).take e.size
  if (crc32 contents).toNat != e.crc then .error .badCheckSum
  else
    match Text.ofUtf8 contents with
    | .ok text => .ok text
    | .error _ => .error .notText

end DocRelay.Archive
