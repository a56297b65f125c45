/-!
# White space

`isWhiteSpace` holds of the characters with the Unicode property `White_Space`. `trimmedRight` and
`trimmedLeft` take them off the ends of a text.
-/

namespace MiniC.Text

/-- The ranges of characters with the property `White_Space`. -/
def whiteSpace : List (Nat × Nat) :=
  [(0x09, 0x0D), (0x20, 0x20), (0x85, 0x85), (0xA0, 0xA0), (0x1680, 0x1680), (0x2000, 0x200A),
    (0x2028, 0x2029), (0x202F, 0x202F), (0x205F, 0x205F), (0x3000, 0x3000)]

/-- Whether a character has the property `White_Space`. -/
def isWhiteSpace (c : Char) : Bool := whiteSpace.any fun r => r.1 ≤ c.toNat && c.toNat ≤ r.2

/-- The text without the white space at its start. -/
def trimmedLeft (cs : List Char) : List Char := cs.dropWhile isWhiteSpace

/-- The text without the white space at its end. -/
def trimmedRight (cs : List Char) : List Char := (cs.reverse.dropWhile isWhiteSpace).reverse

theorem isWhiteSpace_of_isWhitespace {c : Char} (h : c.isWhitespace = true) :
    isWhiteSpace c = true := by
  simp only [Char.isWhitespace, Bool.or_eq_true, decide_eq_true_eq] at h
  rcases h with ((rfl | rfl) | rfl) | rfl <;> decide

/-- What is trimmed off the end is white space, and what is left ends in none. -/
theorem trimmedRight_append (cs ws : List Char) (h : ∀ c ∈ ws, isWhiteSpace c = true) :
    trimmedRight (cs ++ ws) = trimmedRight cs := by
  simp only [trimmedRight, List.reverse_append]
  rw [List.dropWhile_append_of_pos (by simpa using h)]

end MiniC.Text
