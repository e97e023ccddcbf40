import VisualQuery.Text.Blank

/-!
Keywords typed by hand: blanks around them and the case of ASCII letters do not count.
-/

namespace VisualQuery.Text

/-- The form in which upper-case keywords are compared: trimmed, ASCII letters in upper case. -/
def upperKeyword (s : String) : String := String.ofList ((trim s).toList.map Char.toUpper)

/-- The form in which lower-case keywords are compared: trimmed, ASCII letters in lower case. -/
def lowerKeyword (s : String) : String := String.ofList ((trim s).toList.map Char.toLower)

end VisualQuery.Text
