import DocRelay.Json.Basic

namespace DocRelay.Toml

/-!
# Tables of a configuration text

While a text is read, its tables are kept with the way in which they came about, for that
decides whether they may be added to: a table with a header of its own is closed, a table that a
longer header only passes through may still get its own header, and a table that dotted keys
make may be added to by dotted keys alone.

* `Origin`, `Node` — the tables;
* `update` — the tables on a path, changed at its end;
* `assign` — a value under a dotted key;
* `openTable`, `openElement` — the table of a header;
* `Node.toJson` — the finished value.
-/

/-- How a table came about. -/
inductive Origin where
  /-- It has a header, or is the top of the text. -/
  | header
  /-- A longer header passes through it. -/
  | implied
  /-- Dotted keys made it. -/
  | dotted
deriving DecidableEq, Repr

/-- What stands under a key. -/
inductive Node where
  | value (j : Json)
  | table (origin : Origin) (entries : List (String × Node))
  /-- The tables of headers in double brackets. -/
  | tables (elements : List (List (String × Node)))

/-- The entries of a table, in the order in which they came about. -/
abbrev Entries := List (String × Node)

/-- What stands under a key. -/
def find? (entries : Entries) (key : String) : Option Node :=
  entries.lookup key

/-- The entries with another node under a key that is there. -/
def replace (entries : Entries) (key : String) (node : Node) : Entries :=
  entries.map fun entry => if entry.1 == key then (key, node) else entry

/-- The entries without a key. -/
def remove (entries : Entries) (key : String) : Entries :=
  entries.filter fun entry => entry.1 != key

/-- The tables on a path, changed at its end by `change`.  Missing tables come about as `fresh`;
    of an array of tables the last one is meant.  Dotted keys do not lead through a table with a
    header. -/
def update (fresh : Origin) (change : Origin → Entries → Option Entries) :
    List String → Origin → Entries → Option Entries
  | [], origin, entries => change origin entries
  | key :: path, _, entries =>
    match find? entries key with
    | none => do
      let inner ← update fresh change path fresh []
      return entries ++ [(key, .table fresh inner)]
    | some (.value _) => none
    | some (.table origin inner) =>
      if fresh == .dotted && origin == .header then none
      else do
        let changed ← update fresh change path origin inner
        return replace entries key (.table origin changed)
    | some (.tables elements) =>
      match elements.getLast? with
      | none => none
      | some last => do
        let changed ← update fresh change path .header last
        return replace entries key (.tables (elements.dropLast ++ [changed]))

/-- A value under a new key. -/
def put (entries : Entries) (key : String) (node : Node) : Option Entries :=
  match find? entries key with
  | some _ => none
  | none => some (entries ++ [(key, node)])

/-- A value under a dotted key of a table with a header: the last part is a new key of a table
    that dotted keys made, or of the table itself. -/
def assign (path : List String) (key : String) (j : Json) (entries : Entries) : Option Entries :=
  update .dotted (fun origin inner =>
    if (origin == .dotted) == path.isEmpty then none else put inner key (.value j))
    path .header entries

/-- A dotted key with its value. -/
structure Assignment where
  path : List String
  key : String
  value : Json

/-- The values of some assignments, in order. -/
def assignAll (entries : Entries) (assignments : List Assignment) : Option Entries :=
  assignments.foldlM (fun entries a => assign a.path a.key a.value entries) entries

/-- A header with a path and the assignments below it; the table may have been implied before,
    and stands behind the others from now on. -/
def openTable (path : List String) (key : String) (body : List Assignment) (entries : Entries) :
    Option Entries :=
  update .implied (fun _ inner =>
    match find? inner key with
    | none => do
      let table ← assignAll [] body
      return inner ++ [(key, .table .header table)]
    | some (.table .implied known) => do
      let table ← assignAll known body
      return remove inner key ++ [(key, .table .header table)]
    | some _ => none)
    path .header entries

/-- A header in double brackets and the assignments below it: one more table of an array. -/
def openElement (path : List String) (key : String) (body : List Assignment)
    (entries : Entries) : Option Entries :=
  update .implied (fun _ inner => do
    let table ← assignAll [] body
    match find? inner key with
    | none => return inner ++ [(key, .tables [table])]
    | some (.tables elements) => return replace inner key (.tables (elements ++ [table]))
    | some _ => none)
    path .header entries

mutual

/-- The finished value of a node. -/
def Node.toJson : Node → Json
  | .value j => j
  | .table _ entries => .obj (entriesToJson entries)
  | .tables elements => .arr (elementsToJson elements)

/-- The finished members of a table. -/
def entriesToJson : List (String × Node) → List (String × Json)
  | [] => []
  | (key, node) :: rest => (key, node.toJson) :: entriesToJson rest

/-- The finished tables of an array. -/
def elementsToJson : List (List (String × Node)) → List Json
  | [] => []
  | entries :: rest => .obj (entriesToJson entries) :: elementsToJson rest

end

end DocRelay.Toml
