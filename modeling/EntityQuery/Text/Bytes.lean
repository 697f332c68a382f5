/-
# Bytes

Texts are lists of characters, but their lengths are told in bytes of UTF-8.
-/

namespace EntityQuery.Text

/-- The length of a text in UTF-8. -/
def byteLength : List Char → Nat
  | [] => 0
  | c :: cs => c.utf8Size + byteLength cs

/-- The text behind its first `n` bytes, unless these end inside of a character or the text is
shorter. -/
def dropBytes : (n : Nat) → List Char → Option (List Char)
  | 0, cs => some cs
  | _ + 1, [] => none
  | n + 1, c :: cs => if c.utf8Size ≤ n + 1 then dropBytes (n + 1 - c.utf8Size) cs else none

end EntityQuery.Text
