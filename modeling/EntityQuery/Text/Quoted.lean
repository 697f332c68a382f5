/-
# Doubled marks

Quoted text writes its closing mark twice wherever the mark is part of the content.  This file
holds that one rule; string literals use it with an apostrophe and bracketed identifiers use it
with a closing bracket.
-/

namespace EntityQuery.Text

/-- The characters with every `mark` written twice and all others once. -/
def doubledChars (mark : Char) : List Char → List Char
  | [] => []
  | c :: cs => if c = mark then c :: c :: doubledChars mark cs else c :: doubledChars mark cs

/-- The text with every `mark` written twice. -/
def doubled (mark : Char) (s : String) : String :=
  String.ofList (doubledChars mark s.toList)

/-- `count` copies of a piece of text. -/
def repeated (piece : String) : Nat → String
  | 0 => ""
  | count + 1 => piece ++ repeated piece count

@[simp] theorem toList_doubled (mark : Char) (s : String) :
    (doubled mark s).toList = doubledChars mark s.toList := by
  simp [doubled]

/-- A mark is written twice, every other character once. -/
theorem count_doubledChars (mark c : Char) (cs : List Char) :
    (doubledChars mark cs).count c = (if c = mark then 2 else 1) * cs.count c := by
  induction cs with
  | nil => simp [doubledChars]
  | cons d ds ih => by_cases h : d = mark <;> by_cases hc : c = d <;> grind [doubledChars]

end EntityQuery.Text
