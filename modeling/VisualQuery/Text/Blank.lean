/-!
Blank characters and blank texts. Blank means the Unicode property White_Space and nothing else:
the separators U+001C to U+001F, the zero width space and the byte order mark are not blank.
-/

namespace VisualQuery.Text

/-- The characters with the Unicode property White_Space. -/
def isBlank (c : Char) : Bool :=
  let n := c.toNat
  (0x9 ≤ n && n ≤ 0xd) || n == 0x20 || n == 0x85 || n == 0xa0 || n == 0x1680 ||
    (0x2000 ≤ n && n ≤ 0x200a) || n == 0x2028 || n == 0x2029 || n == 0x202f || n == 0x205f ||
    n == 0x3000

/-- A text is blank when it holds no other characters, the empty text included. -/
def blank (s : String) : Bool := s.toList.all isBlank

def dropTrailing (cs : List Char) : List Char := (cs.reverse.dropWhile isBlank).reverse

def trimEnd (s : String) : String := String.ofList (dropTrailing s.toList)

def trim (s : String) : String := String.ofList (dropTrailing (s.toList.dropWhile isBlank))

/-- Every character that is white space among the ASCII ones is blank. -/
theorem isBlank_of_isWhitespace {c : Char} (h : c.isWhitespace = true) : isBlank c = true := by
  simp only [Char.isWhitespace, Bool.or_eq_true, decide_eq_true_eq] at h
  rcases h with ((rfl | rfl) | rfl) | rfl <;> decide

end VisualQuery.Text
