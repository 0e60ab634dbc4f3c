import Mathlib.Algebra.Group.Nat.Defs

/-!
# Parsing unsigned numbers

`str::parse` for an unsigned type: decimal digits after an optional plus sign, and
an error when there is none or when the number does not fit.
-/

namespace VllmRouter

def parseUnsigned (bits : Nat) (s : String) : Option Nat :=
  let digits := match s.toList with
    | '+' :: rest => rest
    | cs => cs
  if digits = [] ∨ digits.any (fun c => !c.isDigit) then none
  else
    let n := digits.foldl (fun n c => n * 10 + (c.toNat - '0'.toNat)) 0
    if n < 2 ^ bits then some n else none

end VllmRouter
