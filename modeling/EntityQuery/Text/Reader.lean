/-
# Readers

A reader takes characters from the front of a text and gives back what it read together with the
rest of the text, or refuses.
-/

namespace EntityQuery.Text

/-- A reader: the value read from the front of the text, and the rest of the text. -/
abbrev Reader (α : Type) := List Char → Option (α × List Char)

/-- The number that decimal digits stand for. -/
def decimal (digits : List Char) : Nat :=
  digits.foldl (fun n d => 10 * n + (d.toNat - '0'.toNat)) 0

end EntityQuery.Text
