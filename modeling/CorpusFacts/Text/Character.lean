import CorpusFacts.Text.Unicode.Alphabetic
import CorpusFacts.Text.Unicode.Mark
import CorpusFacts.Text.Unicode.Number
import CorpusFacts.Text.Unicode.GraphemeExtend
import CorpusFacts.Text.Unicode.Unprintable

/-!
# Character classes

Blanks, word characters, letters or digits, and the characters of identifiers in the sense of
Unicode. For ASCII every class is decided by comparison, so the tables are consulted only beyond it.
The tables are those of Unicode 17; words and identifiers are made of the characters of Unicode 16.
-/

namespace CorpusFacts.Text

/-- White space: the Unicode property White_Space. -/
def isBlank (c : Char) : Bool :=
  c == ' ' || ('\t' ≤ c && c ≤ '\r') || c == '\u0085' || c == '\u00a0' || c == '\u1680'
    || ('\u2000' ≤ c && c ≤ '\u200a') || c == '\u2028' || c == '\u2029' || c == '\u202f'
    || c == '\u205f' || c == '\u3000'

/-- ASCII letters and digits. -/
def isAsciiAlphanumeric (c : Char) : Bool :=
  ('a' ≤ c && c ≤ 'z') || ('A' ≤ c && c ≤ 'Z') || ('0' ≤ c && c ≤ '9')

/-- Letters and numbers of any script: Alphabetic, or general category Number. -/
def isAlphanumeric (c : Char) : Bool :=
  if c.toNat < 128 then isAsciiAlphanumeric c
  else Unicode.alphabetic.contains c.toNat || Unicode.number.contains c.toNat

/-- Connecting punctuation beyond ASCII, and the two joining controls. -/
def isConnector (c : Char) : Bool :=
  c == '\u203f' || c == '\u2040' || c == '\u2054' || c == '\ufe33' || c == '\ufe34'
    || ('\ufe4d' ≤ c && c ≤ '\ufe4f') || c == '\uff3f' || c == '\u200c' || c == '\u200d'

/-- The letters, marks and decimal digits that Unicode 17 added to those of Unicode 16. -/
def Unicode.recent : Unicode.Ranges :=
  [(0x88F, 0x88F), (0xC5C, 0xC5C), (0xCDC, 0xCDC), (0x1ACF, 0x1ADD), (0x1AE0, 0x1AEB),
   (0xA7CE, 0xA7CF), (0xA7D2, 0xA7D2), (0xA7D4, 0xA7D4), (0xA7F1, 0xA7F1), (0x10940, 0x10959),
   (0x10EC5, 0x10EC7), (0x10EFA, 0x10EFB), (0x11B60, 0x11B67), (0x11DB0, 0x11DDB),
   (0x11DE0, 0x11DE9), (0x16EA0, 0x16EB8), (0x16EBB, 0x16ED3), (0x16FF2, 0x16FF6),
   (0x187F8, 0x187FF), (0x18D09, 0x18D1E), (0x18D80, 0x18DF2), (0x1E6C0, 0x1E6DE),
   (0x1E6E0, 0x1E6F5), (0x1E6FE, 0x1E6FF), (0x2B73A, 0x2B73F), (0x2CEA2, 0x2CEAD),
   (0x323B0, 0x33479)]

/-- Letters, marks and decimal digits of Unicode 16. -/
def isLetterMarkOrDigit (c : Char) : Bool :=
  (Unicode.alphabetic.contains c.toNat || Unicode.mark.contains c.toNat
    || Unicode.decimalDigit.contains c.toNat) && !Unicode.recent.contains c.toNat

/-- Word characters: letters, marks, decimal digits, connecting punctuation and joining controls. -/
def isWord (c : Char) : Bool :=
  if c.toNat < 128 then isAsciiAlphanumeric c || c == '_'
  else isLetterMarkOrDigit c || isConnector c

/-- Alphabetic characters that identifiers do not start with: circled and squared letters, and
letters that break up into something else when a text is normalized. -/
def circledOrComposed : Unicode.Ranges :=
  [(0x37A, 0x37A), (0xE33, 0xE33), (0xEB3, 0xEB3), (0x24B6, 0x24E9), (0x2E2F, 0x2E2F),
   (0xFC5E, 0xFC63), (0xFDFA, 0xFDFB), (0xFE70, 0xFE70), (0xFE72, 0xFE72), (0xFE74, 0xFE74),
   (0xFE76, 0xFE76), (0xFE78, 0xFE78), (0xFE7A, 0xFE7A), (0xFE7C, 0xFE7C), (0xFE7E, 0xFE7E),
   (0xFF9E, 0xFF9F), (0x1F130, 0x1F149), (0x1F150, 0x1F169), (0x1F170, 0x1F189)]

/-- Characters that identifiers start with: the Unicode property XID_Start. -/
def isIdentifierStart (c : Char) : Bool :=
  if c.toNat < 128 then ('a' ≤ c && c ≤ 'z') || ('A' ≤ c && c ≤ 'Z')
  else (c == '\u1885' || c == '\u1886' || c == '\u2118' || c == '\u212e')
    || (Unicode.alphabetic.contains c.toNat && !Unicode.mark.contains c.toNat
      && !Unicode.recent.contains c.toNat && !circledOrComposed.contains c.toNat)

/-- Marks that enclose the characters before them; no identifier holds one. -/
def enclosingMark : Unicode.Ranges :=
  [(0x488, 0x489), (0x1ABE, 0x1ABE), (0x20DD, 0x20E0), (0x20E2, 0x20E4), (0xA670, 0xA672)]

/-- Characters inside identifiers that are neither letters, marks, digits nor connectors. -/
def identifierJoiner : Unicode.Ranges :=
  [(0xB7, 0xB7), (0x387, 0x387), (0xE33, 0xE33), (0xEB3, 0xEB3), (0x1369, 0x1371),
   (0x19DA, 0x19DA), (0x30FB, 0x30FB), (0xFF65, 0xFF65), (0xFF9E, 0xFF9F)]

/-- Characters that identifiers go on with: the Unicode property XID_Continue. -/
def isIdentifierPart (c : Char) : Bool :=
  if c.toNat < 128 then isAsciiAlphanumeric c || c == '_'
  else isIdentifierStart c || isConnector c || identifierJoiner.contains c.toNat
    || ((Unicode.mark.contains c.toNat || Unicode.decimalDigit.contains c.toNat)
      && !Unicode.recent.contains c.toNat && !enclosingMark.contains c.toNat)

/-- Characters that a quoted text shows as they are: neither extending the character before them nor
without a printed form. -/
def isShown (c : Char) : Bool :=
  if c.toNat < 128 then ' ' ≤ c && c ≤ '~'
  else !(Unicode.graphemeExtend.contains c.toNat || Unicode.unprintable.contains c.toNat)

end CorpusFacts.Text
