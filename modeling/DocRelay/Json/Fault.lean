import DocRelay.Json.Print
import DocRelay.Text.Quoted

namespace DocRelay.Json

/-!
# Faults of JSON texts and values

Two kinds of faults: a text that is no JSON text, and a value that does not have the shape that
is asked for.  Faults met while reading a text name the place.

* `Malformed` — why a text is no JSON text;
* `Misfit` — why a value does not have the expected shape;
* `Fault` — one of the two, with its place; `Fault.message` gives the wording.
-/

/-- A line, counted from one, and the number of bytes of it that were read. -/
structure Place where
  line : Nat
  column : Nat
deriving DecidableEq, Repr

/-- Why a text is no JSON text. -/
inductive Malformed where
  | endInValue
  | endInList
  | endInObject
  | endInString
  | colonExpected
  | listCommaExpected
  | objectCommaExpected
  | wordExpected
  | valueExpected
  | invalidEscape
  | invalidNumber
  | numberOutOfRange
  | controlInString
  | keyExpected
  | loneSurrogate
  | trailingComma
  | trailingCharacters
  | endOfEscape
  | tooDeep
deriving DecidableEq, Repr

/-- The wording of a fault of the text. -/
def Malformed.message : Malformed → String
  | .endInValue => "EOF while parsing a value"
  | .endInList => "EOF while parsing a list"
  | .endInObject => "EOF while parsing an object"
  | .endInString => "EOF while parsing a string"
  | .colonExpected => "expected `:`"
  | .listCommaExpected => "expected `,` or `]`"
  | .objectCommaExpected => "expected `,` or `\x7d`"
  | .wordExpected => "expected ident"
  | .valueExpected => "expected value"
  | .invalidEscape => "invalid escape"
  | .invalidNumber => "invalid number"
  | .numberOutOfRange => "number out of range"
  | .controlInString => "control character (\\u0000-\\u001F) found while parsing a string"
  | .keyExpected => "key must be a string"
  | .loneSurrogate => "lone leading surrogate in hex escape"
  | .trailingComma => "trailing comma"
  | .trailingCharacters => "trailing characters"
  | .endOfEscape => "unexpected end of hex escape"
  | .tooDeep => "recursion limit exceeded"

/-- What was found in place of the expected value. -/
inductive Found where
  | null
  | bool (value : Bool)
  | int (value : Int)
  | float (value : Binary64)
  | str (text : String)
  | sequence
  | map
  | unitVariant
deriving DecidableEq, Repr

/-- What a value counts as when it is not the expected one. -/
def found : Json → Found
  | .null => .null
  | .bool b => .bool b
  | .int n => .int n
  | .float x => .float x
  | .str s => .str s
  | .arr _ => .sequence
  | .obj _ => .map

/-- The text of a floating-point number in a message. -/
def floatText (layout : Layout) (x : Binary64) : String :=
  if x.isFinite then String.ofList (layout.render x)
  else if x.magnitude == Binary64.infinityMagnitude then (if x.isNegative then "-inf" else "inf")
  else "NaN"

/-- The wording for what was found. -/
def Found.message (layout : Layout) : Found → String
  | .null => "null"
  | .bool b => "boolean `" ++ toString b ++ "`"
  | .int n => "integer `" ++ String.ofList (renderInt n) ++ "`"
  | .float x => "floating point `" ++ floatText layout x ++ "`"
  | .str s => "string " ++ Text.quoted s
  | .sequence => "sequence"
  | .map => "map"
  | .unitVariant => "unit variant"

/-- Why a value does not have the expected shape. -/
inductive Misfit where
  | wrongType (found : Found) (expected : String)
  | wrongValue (found : Found) (expected : String)
  | wrongLength (length : Nat) (expected : String)
  | unknownVariant (name : String) (variants : List String)
  | missingField (name : String)
  | duplicateField (name : String)
  | other (text : String)
deriving DecidableEq, Repr

/-- The wording for a choice of names. -/
def oneOf : List String → String
  | [] => "there are no variants"
  | [a] => "expected `" ++ a ++ "`"
  | [a, b] => "expected `" ++ a ++ "` or `" ++ b ++ "`"
  | names => "expected one of " ++ String.intercalate ", " (names.map fun n => "`" ++ n ++ "`")

/-- The wording of a misfit; `layout` lays out the floating-point numbers in it. -/
def Misfit.message (layout : Layout) : Misfit → String
  | .wrongType found expected =>
    "invalid type: " ++ found.message layout ++ ", expected " ++ expected
  | .wrongValue found expected =>
    "invalid value: " ++ found.message layout ++ ", expected " ++ expected
  | .wrongLength length expected =>
    "invalid length " ++ toString length ++ ", expected " ++ expected
  | .unknownVariant name variants => "unknown variant `" ++ name ++ "`, " ++ oneOf variants
  | .missingField name => "missing field `" ++ name ++ "`"
  | .duplicateField name => "duplicate field `" ++ name ++ "`"
  | .other text => text

/-- A fault met while a text was read or a value was decoded. -/
inductive Fault where
  /-- The text is no JSON text. -/
  | malformed (cause : Malformed) (place : Place)
  /-- A value read from a text has the wrong shape. -/
  | misfitAt (cause : Misfit) (place : Place)
  /-- A value at hand has the wrong shape. -/
  | misfit (cause : Misfit)
deriving DecidableEq, Repr

/-- The wording of a place. -/
def Place.message (p : Place) : String :=
  " at line " ++ toString p.line ++ " column " ++ toString p.column

/-- The wording of a fault. -/
def Fault.message : Fault → String
  | .malformed cause place => cause.message ++ place.message
  | .misfitAt cause place => cause.message numberLayout ++ place.message
  | .misfit cause => cause.message numberLayout

end DocRelay.Json
