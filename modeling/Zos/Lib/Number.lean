import Mathlib.Algebra.Group.Nat.Defs

/-!
# Numbers in texts

Unsigned decimal numbers as Rust's `str::parse` reads them: a sign is let through, and
a number that does not fit the type is refused.
-/

namespace Zos.Lib

/-- The text without a leading sign. -/
def unsignedDigits : List Char → List Char
  | '+' :: rest => rest
  | all => all

def parseUnsigned (bits : Nat) (value : String) : Option Nat :=
  let digits := unsignedDigits value.toList
  if digits ≠ [] ∧ digits.all Char.isDigit then
    let n := digits.foldl (fun acc c => acc * 10 + (c.toNat - '0'.toNat)) 0
    if n < 2 ^ bits then some n else none
  else none

end Zos.Lib
