import VisualQuery.Misfit

/-!
Faults in JSON text: breaches of the grammar, and well-formed values that do not fit.
-/

namespace VisualQuery.Json

inductive Fault where
  /-- The text ends where a value is wanted. -/
  | endsAtValue
  /-- The text ends inside a list. -/
  | endsInList
  /-- The text ends inside an object. -/
  | endsInObject
  /-- The text ends inside a string. -/
  | endsInString
  /-- Something other than a value stands where one is wanted. -/
  | noValue
  /-- A word is none of the three known ones. -/
  | unknownWord
  /-- A key is not followed by a colon. -/
  | noColon
  /-- An item is followed by neither a comma nor the closing bracket. -/
  | listNotContinued
  /-- A member is followed by neither a comma nor the closing brace. -/
  | objectNotContinued
  /-- A key is not a string. -/
  | keyNotString
  /-- A comma stands before a closing bracket or brace. -/
  | trailingComma
  /-- Something follows the value. -/
  | trailingCharacters
  /-- A backslash starts no escape. -/
  | badEscape
  /-- A control character stands unescaped in a string. -/
  | controlCharacter
  /-- A high surrogate is not followed by another escape. -/
  | unfinishedSurrogate
  /-- A surrogate is not part of a pair. -/
  | loneSurrogate
  /-- A number is not written as one. -/
  | badNumber
  /-- A number is too large for a floating number. -/
  | outOfRange
  /-- Containers are nested too deeply. -/
  | tooDeep
  /-- The value does not fit. -/
  | misfit (cause : Misfit)
deriving DecidableEq, Repr

def Fault.message : Fault → String
  | .endsAtValue => "EOF while parsing a value"
  | .endsInList => "EOF while parsing a list"
  | .endsInObject => "EOF while parsing an object"
  | .endsInString => "EOF while parsing a string"
  | .noValue => "expected value"
  | .unknownWord => "expected ident"
  | .noColon => "expected `:`"
  | .listNotContinued => "expected `,` or `]`"
  | .objectNotContinued => "expected `,` or `\x7d`"
  | .keyNotString => "key must be a string"
  | .trailingComma => "trailing comma"
  | .trailingCharacters => "trailing characters"
  | .badEscape => "invalid escape"
  | .controlCharacter => "control character (\\u0000-\\u001F) found while parsing a string"
  | .unfinishedSurrogate => "unexpected end of hex escape"
  | .loneSurrogate => "lone leading surrogate in hex escape"
  | .badNumber => "invalid number"
  | .outOfRange => "number out of range"
  | .tooDeep => "recursion limit exceeded"
  | .misfit cause => cause.message

end VisualQuery.Json
