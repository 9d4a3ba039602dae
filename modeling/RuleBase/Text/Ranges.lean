/-!
# Ranges of characters

Properties of characters that hold in a few stretches of the code points.

* `Ranges.contains`: whether a character is in one of the ranges.
-/

namespace RuleBase.Text

/-- Ranges of code points, both ends included, in ascending order and apart from each other. -/
abbrev Ranges : Type := List (Nat × Nat)

/-- Whether a character is in one of the ranges; those above it are not looked at. -/
def Ranges.contains : Ranges → Char → Bool
  | [], _ => false
  | (low, high) :: rest, c => low ≤ c.toNat && (c.toNat ≤ high || Ranges.contains rest c)

@[simp]
theorem Ranges.contains_nil (c : Char) : Ranges.contains [] c = false := rfl

end RuleBase.Text
