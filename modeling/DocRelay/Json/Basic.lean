import DocRelay.Number.Binary64
import DocRelay.Table

namespace DocRelay

/-!
# JSON values

Values of the data format that documents, patches and messages are written in.  Numbers are
either integers or floating-point numbers, and the two are never equal.

* `Json` — a value; its objects list their members in the order in which they were written;
* `Json.canonical` — the members in key order, of two with one key the later one;
* `Json.canonicalTable` — the same for the members of an object at hand;
* `Json.same` — equality of values in canonical form, under which the two zeros are equal;
* `Json.member?` — a member of an object.
-/

/-- A JSON value. -/
inductive Json where
  | null
  | bool (value : Bool)
  | int (value : Int)
  | float (value : Binary64)
  | str (text : String)
  | arr (items : List Json)
  | obj (members : List (String × Json))
deriving Repr, Inhabited

namespace Json

/-- The text of a string value. -/
def text? : Json → Option String
  | .str s => some s
  | _ => none

/-- The members of an object. -/
def members? : Json → Option (List (String × Json))
  | .obj members => some members
  | _ => none

/-- The member of an object under a key. -/
def member? (j : Json) (key : String) : Option Json :=
  match j with
  | .obj members => Table.get? members key
  | _ => none

mutual

/-- The value with the members of every object in key order, a key's last member counting; a
    number that is neither finite nor an integer becomes null. -/
def canonical : Json → Json
  | .arr items => .arr (canonicalItems items)
  | .obj members => .obj (Table.ofPairs (canonicalMembers members))
  | .float x => if x.isFinite then .float x else .null
  | other => other

/-- The items in canonical form. -/
def canonicalItems : List Json → List Json
  | [] => []
  | item :: rest => canonical item :: canonicalItems rest

/-- The members in canonical form, in the order given. -/
def canonicalMembers : List (String × Json) → List (String × Json)
  | [] => []
  | (key, value) :: rest => (key, canonical value) :: canonicalMembers rest

end

/-- The members of an object in canonical form, in key order, a key's last member counting. -/
def canonicalTable (members : List (String × Json)) : Table Json :=
  Table.ofPairs (canonicalMembers members)

mutual

/-- The two values, in canonical form, are equal. -/
def same : Json → Json → Bool
  | .null, .null => true
  | .bool a, .bool b => a == b
  | .int a, .int b => a == b
  | .float a, .float b => Binary64.same a b
  | .str a, .str b => a == b
  | .arr a, .arr b => sameItems a b
  | .obj a, .obj b => sameMembers a b
  | _, _ => false

/-- The items are equal one by one. -/
def sameItems : List Json → List Json → Bool
  | [], [] => true
  | a :: as, b :: bs => same a b && sameItems as bs
  | _, _ => false

/-- The members are equal one by one. -/
def sameMembers : List (String × Json) → List (String × Json) → Bool
  | [], [] => true
  | (k, a) :: as, (l, b) :: bs => k == l && same a b && sameMembers as bs
  | _, _ => false

end

end Json

end DocRelay
