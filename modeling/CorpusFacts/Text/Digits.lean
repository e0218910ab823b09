/-!
# Digits

Numbers spelled with digits in a base of at most sixteen, with letters of either case as the digits
from ten on.
-/

namespace CorpusFacts.Text

/-- The value of a digit in base sixteen. -/
def hexValue? (c : Char) : Option Nat :=
  if '0' ≤ c && c ≤ '9' then some (c.toNat - '0'.toNat)
  else if 'a' ≤ c && c ≤ 'f' then some (c.toNat - 'a'.toNat + 10)
  else if 'A' ≤ c && c ≤ 'F' then some (c.toNat - 'A'.toNat + 10)
  else none

/-- The value of a digit in a base. -/
def digitValue? (base : Nat) (c : Char) : Option Nat :=
  (hexValue? c).filter (· < base)

/-- The number that some digits spell in a base; there must be one digit at least. -/
def number? (base : Nat) (digits : List Char) : Option Nat :=
  if digits.isEmpty then none
  else digits.foldlM (fun number c => (digitValue? base c).map (base * number + ·)) 0

/-- The largest number of sixty-four bits. -/
def maxWord : Nat := 0xffffffffffffffff

/-- The number of at most sixty-four bits that some digits spell in a base. -/
def word? (base : Nat) (digits : List Char) : Option Nat :=
  (number? base digits).filter (· ≤ maxWord)

/-- The character whose code point some digits spell in base sixteen. -/
def codePoint? (digits : List Char) : Option Char := do
  let code ← number? 16 digits
  if code.isValidChar then return Char.ofNat code else none

end CorpusFacts.Text
