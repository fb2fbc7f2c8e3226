import DocRelay.Archive.Crc32
import DocRelay.Text.Utf8

namespace DocRelay.Archive

/-!
# Archives

Zip archives whose entries are stored as they are.  An archive is the local records of its
entries, each followed by the contents, then the central directory with a record for each
entry, then the end record.

* `Entry` — a name and its contents;
* `localRecord`, `centralRecord`, `endRecord` — the records;
* `write` — the archive of some entries, of which each name is used once;
* `splitRepeated` — the entries before the first name that is used again.
-/

/-- An entry: its name and its contents. -/
structure Entry where
  name : String
  contents : Bytes
deriving DecidableEq, Repr

/-- What a local record begins with. -/
def localMark : Bytes := [0x50, 0x4B, 0x03, 0x04]

/-- What a record of the central directory begins with. -/
def centralMark : Bytes := [0x50, 0x4B, 0x01, 0x02]

/-- What the end record begins with. -/
def endMark : Bytes := [0x50, 0x4B, 0x05, 0x06]

/-- The flag of a name that is written in UTF-8. -/
def utf8Flag : Nat := 0x0800

/-- The fields that the local and the central record of an entry share: version needed, flags,
    method, time and date of the first of January 1980, check sum, both sizes and the length of
    the name. -/
def sharedFields (e : Entry) : Bytes :=
  let flags := if e.name.toList.all (·.toNat < 0x80) then 0 else utf8Flag
  Bytes.ofNat 2 10 ++ Bytes.ofNat 2 flags ++ Bytes.ofNat 2 0 ++ Bytes.ofNat 2 0
    ++ Bytes.ofNat 2 0x0021 ++ Bytes.ofNat 4 (crc32 e.contents).toNat
    ++ Bytes.ofNat 4 e.contents.length ++ Bytes.ofNat 4 e.contents.length
    ++ Bytes.ofNat 2 (Text.utf8 e.name).length

/-- The local record of an entry, with its contents. -/
def localRecord (e : Entry) : Bytes :=
  localMark ++ sharedFields e ++ Bytes.ofNat 2 0 ++ Text.utf8 e.name ++ e.contents

/-- The record of an entry in the central directory: no extra field and no comment, the first
    disk, a regular file that its owner may write, and the place of the local record. -/
def centralRecord (e : Entry) (offset : Nat) : Bytes :=
  centralMark ++ Bytes.ofNat 2 0x030A ++ sharedFields e ++ Bytes.ofNat 2 0 ++ Bytes.ofNat 2 0
    ++ Bytes.ofNat 2 0 ++ Bytes.ofNat 2 0 ++ Bytes.ofNat 4 0x81A40000 ++ Bytes.ofNat 4 offset
    ++ Text.utf8 e.name

/-- The end record: the number of entries, and the size and the place of the directory. -/
def endRecord (count size offset : Nat) : Bytes :=
  endMark ++ Bytes.ofNat 2 0 ++ Bytes.ofNat 2 0 ++ Bytes.ofNat 2 count ++ Bytes.ofNat 2 count
    ++ Bytes.ofNat 4 size ++ Bytes.ofNat 4 offset ++ Bytes.ofNat 2 0

/-- The local records of the entries. -/
def localPart (entries : List Entry) : Bytes :=
  entries.flatMap localRecord

/-- The central directory of entries whose local records begin at an offset. -/
def directoryFrom : Nat → List Entry → Bytes
  | _, [] => []
  | offset, e :: rest =>
    centralRecord e offset ++ directoryFrom (offset + (localRecord e).length) rest

/-- The archive of some entries. -/
def write (entries : List Entry) : Bytes :=
  let locals := localPart entries
  let directory := directoryFrom 0 entries
  locals ++ directory ++ endRecord entries.length directory.length locals.length

/-- The entries before the first one whose name was used before, and that name. -/
def splitRepeated (seen : List String) : List Entry → List Entry × Option String
  | [] => ([], none)
  | e :: rest =>
    if seen.contains e.name then ([], some e.name)
    else
      let (distinct, repeated) := splitRepeated (e.name :: seen) rest
      (e :: distinct, repeated)

end DocRelay.Archive
