import DocRelay.Json.Decode
import DocRelay.Json.Read

namespace DocRelay.Json

/-!
# Reading tagged records

A record that names its own kind, read from a text.  The tag is checked as soon as it is met; a
misfit that belongs to the whole record is placed behind it.

* `Cursor.misfitBehind` — where a misfit of an object that is not yet closed is placed;
* `readScalarMisfit` — the misfit of a value of the wrong type, behind it if it has no parts;
* `readTagged` — the kind of a record and the rest of it; `readTable` — an object.
-/

/-- A misfit at the place of what was read. -/
def Cursor.misfitHere {α : Type} (cur : Cursor) (cause : Misfit) : Except Fault α :=
  .error (.misfitAt cause cur.here)

/-- A misfit of an object or list that ends, at best, behind the blanks at the cursor. -/
def Cursor.misfitBehind {α : Type} (cur : Cursor) (close : Char) (cause : Misfit) :
    Except Fault α :=
  let cur := cur.skipBlanks
  if cur.rest.head? == some close then cur.advance.misfitHere cause else cur.misfitHere cause

/-- The misfit of a value of the wrong type: a value without parts is read first. -/
def readScalarMisfit {α : Type} (expected : String) (cur : Cursor) : Except Fault α :=
  let cur := cur.skipBlanks
  match cur.rest with
  | '[' :: _ => cur.misfitHere (.wrongType .sequence expected)
  | '\x7b' :: _ => cur.misfitHere (.wrongType .map expected)
  | _ => do
    let (j, cur) ← readValueWith none cur
    cur.misfitHere (.wrongType (found j) expected)

/-- The tag of a record: one of the names of its variants. -/
def readVariant (variants : List String) (cur : Cursor) : Except Fault (String × Cursor) := do
  let cur := cur.skipBlanks
  match cur.rest with
  | [] => cur.failAhead .endInValue
  | '"' :: _ =>
    let (name, cur) ← readString cur.advance
    if variants.contains name then return (name, cur)
    else cur.misfitHere (.unknownVariant name variants)
  | _ => readScalarMisfit "variant identifier" cur

/-- The kind of a record written as an object, and its other members. -/
def readTaggedMembers (tag : String) (variants : List String)
    (value : Cursor → Except Fault (Json × Cursor)) (cur : Cursor) :
    Except Fault ((String × Json) × Cursor) := do
  let ((kind, members), after) ← foldMembers (fun (kind, members) key cur => do
    if key == tag then
      if kind.isSome then cur.misfitBehind '\x7d' (.duplicateField tag)
      else
        let (name, cur) ← readVariant variants (← readColon cur)
        return ((some name, members), cur)
    else
      let (item, cur) ← value (← readColon cur)
      return ((kind, (key, item) :: members), cur))
    (cur.rest.length + 1) true ((none : Option String), ([] : List (String × Json))) cur
  match kind with
  | some name => return ((name, .obj members.reverse), after)
  | none => after.misfitHere (.missingField tag)

/-- The kind of a record written as a list, and its other items. -/
def readTaggedItems (tag : String) (variants : List String)
    (value : Cursor → Except Fault (Json × Cursor)) (cur : Cursor) :
    Except Fault ((String × Json) × Cursor) := do
  let ((kind, items), after) ← foldItems (fun (kind, items) cur => do
    match kind with
    | none =>
      let (name, cur) ← readVariant variants cur
      return ((some name, items), cur)
    | some _ =>
      let (item, cur) ← value cur
      return ((kind, item :: items), cur))
    (cur.rest.length + 1) true ((none : Option String), ([] : List Json)) cur
  match kind with
  | some name => return ((name, .arr items.reverse), after)
  | none => after.misfitHere (.missingField tag)

/-- A record that names its own kind, in the member `tag` or in its first item: the kind, and
    the record without it. -/
def readTagged (title tag : String) (variants : List String) (cur : Cursor) :
    Except Fault ((String × Json) × Cursor) :=
  let cur := cur.skipBlanks
  match cur.rest with
  | '\x7b' :: _ => readTaggedMembers tag variants (readValue (depthLimit - 1)) cur.advance
  | '[' :: _ => readTaggedItems tag variants (readValue (depthLimit - 1)) cur.advance
  | _ => readScalarMisfit ("internally tagged enum " ++ title) cur

/-- A record of a text that names its own kind; `build` decodes it from its kind and the rest. -/
def readRecord {α : Type} (title tag : String) (variants : List String)
    (build : String → Json → Except Misfit α) (text : String) : Except Fault α := do
  let ((kind, content), cur) ← readTagged title tag variants (Cursor.start text.toList)
  match build kind content with
  | .error cause => throw (.misfit cause)
  | .ok value =>
    readEnd cur
    return value

/-- The object that a text is. -/
def readTable (text : String) : Except Fault (Table Json) := do
  let cur := (Cursor.start text.toList).skipBlanks
  match cur.rest with
  | '\x7b' :: _ =>
    let (members, cur) ← readMembers (readValue (depthLimit - 1)) cur.advance
    readEnd cur
    return canonicalTable members
  | _ => readScalarMisfit "a map" cur

end DocRelay.Json
