import DocRelay.Json.Fault

namespace DocRelay.Json

/-!
# Decoding values

Reading typed data out of a value.  A record may be written as an object, by field names, or as
a list, by positions; the parts are decoded in the order in which they are written, so the first
misfit of the text is the one reported.

* `asText`, `asBool`, `asWord`, `asFloat`, `asList`, `asTable` — plain data;
* `Dialect` — what is made of surplus items;
* `Shape`, `Slots` — the fields of a record, and what a value gives for them;
* `asName` — one of a set of names; `asTagged` — a record that names its own kind.
-/

/-- Where a value comes from, which decides whether surplus items of a list are refused. -/
inductive Dialect where
  /-- A value at hand. -/
  | plain
  /-- The rest of a value whose tag was taken out. -/
  | untagged
  /-- A value of a configuration text. -/
  | config
deriving DecidableEq, Repr

/-- The number of items in words. -/
def countText (noun : String) (n : Nat) : String :=
  toString n ++ " " ++ (if n == 1 then noun else noun ++ "s")

/-- The refusal of a list of `length` items of which only `used` were asked for. -/
def Dialect.surplus (dialect : Dialect) (length used : Nat) : Except Misfit Unit :=
  if length ≤ used then .ok ()
  else
    match dialect with
    | .plain => .error (.wrongLength length "fewer elements in array")
    | .untagged => .error (.wrongLength length (countText "element" used ++ " in sequence"))
    | .config => .ok ()

/-- The refusal of a value of the wrong type. -/
def unexpected {α : Type} (j : Json) (expected : String) : Except Misfit α :=
  .error (.wrongType (found j) expected)

/-- A text. -/
def asText : Json → Except Misfit String
  | .str s => .ok s
  | j => unexpected j "a string"

/-- A truth value. -/
def asBool : Json → Except Misfit Bool
  | .bool b => .ok b
  | j => unexpected j "a boolean"

/-- An integer between two bounds, of the type called `name`. -/
def asInt (name : String) (low high : Int) : Json → Except Misfit Int
  | .int n => if low ≤ n && n ≤ high then .ok n else .error (.wrongValue (.int n) name)
  | j => unexpected j name

/-- A floating-point number; an integer gives the nearest one. -/
def asFloat : Json → Except Misfit Binary64
  | .float x => .ok x
  | .int n => .ok (Binary64.ofInt n)
  | j => unexpected j "f64"

/-- Each item in turn, up to the first misfit. -/
def eachItem {α : Type} (item : Json → Except Misfit α) : List Json → Except Misfit (List α)
  | [] => .ok []
  | j :: rest => do
    let first ← item j
    let others ← eachItem item rest
    return first :: others

/-- A list. -/
def asList {α : Type} (item : Json → Except Misfit α) : Json → Except Misfit (List α)
  | .arr items => eachItem item items
  | j => unexpected j "a sequence"

/-- An object with values of any kind. -/
def asTable (j : Json) : Except Misfit (Table Json) :=
  match j with
  | .obj members => .ok (canonicalTable members)
  | j => unexpected j "a map"

/-- A value that may be null. -/
def asOption {α : Type} (item : Json → Except Misfit α) : Json → Except Misfit (Option α)
  | .null => .ok none
  | j => (item j).map some

/-- One of the names; it may be the only key of an object with an empty value. -/
def asName (dialect : Dialect) (names : List String) (j : Json) : Except Misfit String := do
  let known (name : String) : Except Misfit String :=
    if names.contains name then .ok name else .error (.unknownVariant name names)
  match j with
  | .str s => known s
  | .obj [(key, value)] =>
    let name ← known key
    match value, dialect with
    | .null, _ => return name
    | .obj [], .untagged => return name
    | _, _ => unexpected value "unit"
  | .obj _ => throw (.wrongValue .map "map with a single key")
  | _ => unexpected j "string or map"

/-- A field of a record and the test of a value for it. -/
structure Field where
  name : String
  check : Json → Except Misfit Unit

/-- The field whose values `decode` decodes. -/
def field {α : Type} (name : String) (decode : Json → Except Misfit α) : Field :=
  ⟨name, fun j => (decode j).map fun _ => ()⟩

/-- The form of a record: how it is called and what fields it has, in order. -/
structure Shape where
  title : String
  fields : List Field

/-- What a value gives for the fields of a record. -/
structure Slots where
  shape : Shape
  byPosition : Bool
  values : List (String × Json)

/-- The items of a list for the fields, by position. -/
def fillByPosition : List Field → List Json → Except Misfit (List (String × Json))
  | f :: fields, j :: items => do
    f.check j
    let others ← fillByPosition fields items
    return (f.name, j) :: others
  | _, _ => .ok []

/-- The members of an object for the fields, by name; other members are passed over. -/
def fillByName (fields : List Field) (seen : List String) :
    List (String × Json) → Except Misfit (List (String × Json))
  | [] => .ok []
  | (key, j) :: rest =>
    match fields.find? (·.name == key) with
    | none => fillByName fields seen rest
    | some f =>
      if seen.contains key then .error (.duplicateField key)
      else do
        f.check j
        let others ← fillByName fields (key :: seen) rest
        return (key, j) :: others

/-- What a value gives for the fields of a record. -/
def Shape.slots (shape : Shape) (j : Json) : Except Misfit Slots :=
  match j with
  | .obj members => (fillByName shape.fields [] members).map (⟨shape, false, ·⟩)
  | .arr items => (fillByPosition shape.fields items).map (⟨shape, true, ·⟩)
  | j => unexpected j shape.title

/-- The value of a field that may be left out. -/
def Slots.optional {α : Type} (slots : Slots) (name : String)
    (decode : Json → Except Misfit α) (absent : α) : Except Misfit α :=
  match slots.values.lookup name with
  | some j => decode j
  | none => .ok absent

/-- The value of a field that must be there. -/
def Slots.required {α : Type} (slots : Slots) (name : String)
    (decode : Json → Except Misfit α) : Except Misfit α :=
  match slots.values.lookup name with
  | some j => decode j
  | none =>
    if slots.byPosition then
      let size := slots.shape.fields.length
      .error (.wrongLength (slots.shape.fields.findIdx (·.name == name))
        (slots.shape.title ++ " with " ++ countText "element" size))
    else .error (.missingField name)

/-- A record: its fields are filled from the value, `build` decodes them, and surplus items are
    refused. -/
def Shape.decode {α : Type} (shape : Shape) (dialect : Dialect)
    (build : Slots → Except Misfit α) (j : Json) : Except Misfit α := do
  let slots ← shape.slots j
  let value ← build slots
  match j with
  | .arr items => dialect.surplus items.length shape.fields.length
  | _ => pure ()
  return value

/-- A record without fields, the tag taken out. -/
def asEmpty : Json → Except Misfit Unit
  | .arr items => Dialect.untagged.surplus items.length 0
  | _ => .ok ()

/-- The tag itself: one of the names of the variants. -/
def asVariant (variants : List String) : Json → Except Misfit String
  | .str s => if variants.contains s then .ok s else .error (.unknownVariant s variants)
  | j => unexpected j "variant identifier"

/-- The tag and the other members of an object, from a member on. -/
def splitTag (tag : String) (variants : List String) (seen : Option String) :
    List (String × Json) → Except Misfit (String × List (String × Json))
  | [] =>
    match seen with
    | some name => .ok (name, [])
    | none => .error (.missingField tag)
  | (key, j) :: rest => do
    if key == tag then
      if seen.isSome then throw (.duplicateField tag)
      let name ← asVariant variants j
      splitTag tag variants (some name) rest
    else
      let (name, others) ← splitTag tag variants seen rest
      return (name, (key, j) :: others)

/-- A record that names its own kind, in the member `tag` or in its first item: the kind, and
    the value without it. -/
def asTagged (title tag : String) (variants : List String) (j : Json) :
    Except Misfit (String × Json) :=
  match j with
  | .obj members => (splitTag tag variants none members).map fun (name, others) =>
      (name, .obj others)
  | .arr [] => .error (.missingField tag)
  | .arr (first :: rest) => (asVariant variants first).map fun name => (name, .arr rest)
  | j => unexpected j ("internally tagged enum " ++ title)

end DocRelay.Json
