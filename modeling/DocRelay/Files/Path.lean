import DocRelay.Files.Fault
import DocRelay.Text.Split
import DocRelay.Text.Utf8

namespace DocRelay.Path

/-!
# Paths

A path is a text whose parts are separated by slashes; one that begins with a slash starts at the
root of all files.

* `isAbsolute`, `join` — one path inside another;
* `parts` — the names that a path goes through;
* `check` — whether a path can be looked up at all.
-/

/-- The path starts at the root of all files. -/
def isAbsolute (path : String) : Bool :=
  path.toList.head? == some '/'

/-- The path inside a folder; an absolute path stands for itself. -/
def join (folder path : String) : String :=
  if isAbsolute path then path
  else if folder.isEmpty || folder.toList.getLast? == some '/' then folder ++ path
  else folder ++ "/" ++ path

/-- The names that a path goes through. -/
def parts (path : String) : List String :=
  (Text.split (· == '/') path.toList).map String.ofList

/-- The most bytes that a name may have. -/
def nameLimit : Nat := 255

/-- The most bytes that a path may have. -/
def pathLimit : Nat := 4095

/-- The name has more bytes than a name may have. -/
def nameTooLong (name : String) : Bool :=
  nameLimit < (Text.utf8 name).length

/-- What forbids the look-up of a path, whatever files there are. -/
def check (path : String) : Option FileFault :=
  if path.toList.contains '\x00' then some .zeroInPath
  else if path.isEmpty then some .notFound
  else if pathLimit < (Text.utf8 path).length then some .nameTooLong
  else none

end DocRelay.Path
