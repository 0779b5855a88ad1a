import ArchiveVfs.Bytes

/-!
# Code page 437

The names of old containers have one byte for each character: ASCII below 128,
the characters of the first personal computers above.
-/

namespace ArchiveVfs.Text.CodePage437

/-- The characters of the bytes from 128 on. -/
def upperHalf : Array Char :=
  ("ÇüéâäàåçêëèïîìÄÅ" ++ "ÉæÆôöòûùÿÖÜ¢£¥₧ƒ" ++ "áíóúñÑªº¿⌐¬½¼¡«»" ++ "░▒▓│┤╡╢╖╕╣║╗╝╜╛┐"
    ++ "└┴┬├─┼╞╟╚╔╩╦╠═╬╧" ++ "╨╤╥╙╘╒╓╫╪┘┌█▄▌▐▀" ++ "αßΓπΣσµτΦΘΩδ∞φε∩"
    ++ "≡±≥≤⌠⌡÷≈°∙·√ⁿ²■\u00a0").toList.toArray

/-- The character of a byte. -/
def ofByte (b : UInt8) : Char :=
  if b < 128 then Char.ofNat b.toNat else upperHalf[b.toNat - 128]?.getD '\uFFFD'

/-- The text that the bytes spell. -/
def decode (data : Bytes) : List Char :=
  data.map ofByte

end ArchiveVfs.Text.CodePage437
