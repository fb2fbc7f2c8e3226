import DocRelay.Json.Fault

namespace DocRelay

/-!
# Locations

The location of the page that shows a document: seven texts and the wish to load the page again.
A location is read-only except inside an `edit`.

* `Location` — the fields and the read-only flag;
* `Location.get?`, `Location.set` — one field;
* `Location.edit` — lifts the flag for a while;
* `Location.merge` — the recognised fields of an update, all of them or none;
* `Location.edit_isReadonly`, `Location.merge_isReadonly` — both leave the flag as it was.
-/

/-- Why a location cannot be changed. -/
inductive LocationFault where
  /-- The location is read-only. -/
  | readonly (key : String)
  /-- The value, written `got`, is not of the type of the field. -/
  | wrongType (key expected got : String)
  /-- There is no such field. -/
  | unknownField (key : String)
  /-- The text is no object. -/
  | notObject (fault : Json.Fault)
deriving DecidableEq, Repr

/-- The wording of the fault. -/
def LocationFault.message : LocationFault → String
  | .readonly key => "location is read-only (field '" ++ key ++ "')"
  | .wrongType key expected got =>
    "field '" ++ key ++ "' expects " ++ expected ++ ", got " ++ got
  | .unknownField key => "unknown location field '" ++ key ++ "'"
  | .notObject fault => "location is not a JSON object: " ++ fault.message

/-- The location of a page. -/
structure Location where
  href : String
  hostname : String
  pathname : String
  protocol : String
  port : String
  search : String
  hash : String
  reload : Bool
  /-- The fields cannot be changed. -/
  isReadonly : Bool
deriving DecidableEq, Repr

namespace Location

/-- A read-only location without any text. -/
def blank : Location := ⟨"", "", "", "", "", "", "", false, true⟩

/-- The fields, by name. -/
def fieldNames : List String :=
  ["href", "hostname", "pathname", "protocol", "port", "search", "hash", "reload"]

/-- The name is the name of a field. -/
def isField (key : String) : Bool :=
  fieldNames.contains key

/-- The value of a field. -/
def get? (l : Location) (key : String) : Option Json :=
  match key with
  | "href" => some (.str l.href)
  | "hostname" => some (.str l.hostname)
  | "pathname" => some (.str l.pathname)
  | "protocol" => some (.str l.protocol)
  | "port" => some (.str l.port)
  | "search" => some (.str l.search)
  | "hash" => some (.str l.hash)
  | "reload" => some (.bool l.reload)
  | _ => none

/-- The fields as an object. -/
def toJson (l : Location) : Json :=
  .obj (Table.ofPairs (fieldNames.filterMap fun key => (l.get? key).map fun value => (key, value)))

/-- The location with a text in one of its seven text fields. -/
def put? (l : Location) (key text : String) : Option Location :=
  match key with
  | "href" => some { l with href := text }
  | "hostname" => some { l with hostname := text }
  | "pathname" => some { l with pathname := text }
  | "protocol" => some { l with protocol := text }
  | "port" => some { l with port := text }
  | "search" => some { l with search := text }
  | "hash" => some { l with hash := text }
  | _ => none

/-- Changes a field; a fault leaves the location as it is. -/
def set (l : Location) (key : String) (value : Json) : Except LocationFault Unit × Location :=
  if l.isReadonly then (.error (.readonly key), l)
  else if key = "reload" then
    match value with
    | .bool b => (.ok (), { l with reload := b })
    | other => (.error (.wrongType key "a boolean" other.compact), l)
  else
    match value with
    | .str text =>
      match l.put? key text with
      | some after => (.ok (), after)
      | none => (.error (.unknownField key), l)
    | other => (.error (.wrongType key "a string" other.compact), l)

/-- What `body` does to the location with the flag lifted; afterwards the flag is as it was. -/
def edit {α : Type} (body : Location → α × Location) (l : Location) : α × Location :=
  let (answer, after) := body { l with isReadonly := false }
  (answer, { after with isReadonly := l.isReadonly })

/-- Changes fields in turn, up to the first fault: the names of the fields. -/
def setEach (l : Location) : List (String × Json) → Except LocationFault (List String) × Location
  | [] => (.ok [], l)
  | (key, value) :: rest =>
    match l.set key value with
    | (.error fault, after) => (.error fault, after)
    | (.ok (), after) =>
      match after.setEach rest with
      | (.error fault, last) => (.error fault, last)
      | (.ok keys, last) => (.ok (key :: keys), last)

/-- The members of an update that name fields. -/
def recognised (update : Table Json) : Table Json :=
  update.filter fun member => isField member.1

/-- Merges the members of an update that name fields, all of them or, after a fault, none: the
    names of the fields. -/
def merge (update : Table Json) (l : Location) :
    Except LocationFault (List String) × Location :=
  l.edit fun writable =>
    match writable.setEach (recognised update) with
    | (.ok keys, after) => (.ok keys, after)
    | (.error fault, after) => (.error fault, { writable with isReadonly := after.isReadonly })

/-- Editing leaves the flag as it was, whatever is done in between. -/
@[simp] theorem edit_isReadonly {α : Type} (body : Location → α × Location) (l : Location) :
    (l.edit body).2.isReadonly = l.isReadonly := rfl

/-- Changing a field leaves the flag alone. -/
@[simp] theorem set_isReadonly (l : Location) (key : String) (value : Json) :
    (l.set key value).2.isReadonly = l.isReadonly := by
  unfold set put?
  repeat' split
  all_goals grind

/-- A merge leaves the flag as it was. -/
@[simp] theorem merge_isReadonly (update : Table Json) (l : Location) :
    (l.merge update).2.isReadonly = l.isReadonly := rfl

end Location

end DocRelay
