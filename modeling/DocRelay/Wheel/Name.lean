import DocRelay.Text.Blank
import DocRelay.Text.Lowercase

namespace DocRelay.Wheel

/-!
# Distribution names

Two spellings of a distribution name count as the same when they agree up to case, surrounding
blanks and the choice and number of separators.

* `isSeparator c` — one of `-`, `_` and `.`;
* `normalizeName s` — the spelling that stands for all of them.
-/

/-- The character separates the words of a name. -/
def isSeparator (c : Char) : Bool :=
  c == '-' || c == '_' || c == '.'

/-- The characters in lower case, each run of separators as one dash; `afterDash` tells that the
    run has its dash already. -/
def collapse (afterDash : Bool) : List Char → List Char
  | [] => []
  | c :: rest =>
    if isSeparator c then
      if afterDash then collapse true rest else '-' :: collapse true rest
    else Text.lowercase c ++ collapse false rest

/-- The spelling that stands for all spellings of a name. -/
def normalizeName (s : String) : String :=
  String.ofList (collapse false (Text.trimChars s.toList))

end DocRelay.Wheel
