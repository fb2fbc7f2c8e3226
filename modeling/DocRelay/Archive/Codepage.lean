import DocRelay.Bytes

namespace DocRelay.Archive

/-!
# The code page of old archives

Names of archive entries that are not marked as UTF-8 are written in code page 437: ASCII below
128, and Western European letters, lines and signs above.

* `codepage` — the upper half of the page;
* `ofCodepage` — the text of a byte string.
-/

/-- The characters of the bytes from 128 on. -/
def codepage : List Char :=
  ("ÇüéâäàåçêëèïîìÄÅ" ++
   "ÉæÆôöòûùÿÖÜ¢£¥₧ƒ" ++
   "áíóúñÑªº¿⌐¬½¼¡«»" ++
   "░▒▓│┤╡╢╖╕╣║╗╝╜╛┐" ++
   "└┴┬├─┼╞╟╚╔╩╦╠═╬╧" ++
   "╨╤╥╙╘╒╓╫╪┘┌█▄▌▐▀" ++
   "αßΓπΣσµτΦΘΩδ∞φε∩" ++
   "≡±≥≤⌠⌡÷≈°∙·√ⁿ²■\u00a0").toList

/-- The character of a byte. -/
def codepageChar (b : UInt8) : Char :=
  if b.toNat < 128 then Char.ofNat b.toNat else codepage.getD (b.toNat - 128) ' '

/-- The text of a byte string. -/
def ofCodepage (bytes : Bytes) : String :=
  String.ofList (bytes.map codepageChar)

end DocRelay.Archive
