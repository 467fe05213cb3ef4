/-!
White space between the parts of a JSON text.
-/

namespace ImportScan.Json

/-- Space, tab, line feed and carriage return may stand between the parts of a text. -/
def isBlank (c : Char) : Bool := c == ' ' || c == '\t' || c == '\n' || c == '\r'

/-- The text from its first character that is not blank. -/
def skipBlank (s : List Char) : List Char := s.dropWhile isBlank

theorem length_skipBlank (s : List Char) : (skipBlank s).length ≤ s.length :=
  (List.dropWhile_sublist isBlank).length_le

/-- What follows the first character that is not blank is shorter than the text. -/
theorem length_of_skipBlank {s rest : List Char} {c : Char} (h : skipBlank s = c :: rest) :
    rest.length < s.length := by
  have := length_skipBlank s
  rw [h] at this
  exact this

end ImportScan.Json
