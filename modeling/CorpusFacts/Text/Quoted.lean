import CorpusFacts.Text.Character

/-!
# Quoted texts in messages

Messages show a text between double quotes. Quotes, backslashes and line breaks inside it are
escaped with a backslash, and characters without a printed form by their code point.
-/

namespace CorpusFacts.Text

/-- The digits of a number in base sixteen, lower case. -/
def hexDigits (n : Nat) : List Char :=
  Nat.toDigits 16 n

/-- How a quoted text shows one character. -/
def escapeChar (c : Char) : List Char :=
  match c with
  | '"' => ['\\', '"']
  | '\\' => ['\\', '\\']
  | '\n' => ['\\', 'n']
  | '\r' => ['\\', 'r']
  | '\t' => ['\\', 't']
  | '\x00' => ['\\', '0']
  | c => if isShown c then [c] else ['\\', 'u', '\x7b'] ++ hexDigits c.toNat ++ ['\x7d']

/-- A text between double quotes, with its special characters escaped. -/
def quoted (text : List Char) : String :=
  String.ofList (['"'] ++ text.flatMap escapeChar ++ ['"'])

end CorpusFacts.Text
