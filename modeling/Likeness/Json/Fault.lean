/-!
# Likeness.Json.Fault

What can be wrong with JSON text.
-/

namespace Likeness.Json

/-- A place where text cannot be read on as JSON. -/
inductive Fault where
  | endInValue
  | endInList
  | endInObject
  | endInString
  | expectedColon
  | expectedListComma
  | expectedObjectComma
  | expectedWord
  | expectedValue
  | invalidEscape
  | invalidNumber
  | outOfRange
  | controlCharacter
  | keyNotString
  | loneSurrogate
  | escapeCutShort
  | trailingComma
  | trailingCharacters
  | tooDeep
deriving DecidableEq

namespace Fault

/-- What is said about a fault. -/
def message : Fault → String
  | .endInValue => "EOF while parsing a value"
  | .endInList => "EOF while parsing a list"
  | .endInObject => "EOF while parsing an object"
  | .endInString => "EOF while parsing a string"
  | .expectedColon => "expected `:`"
  | .expectedListComma => "expected `,` or `]`"
  | .expectedObjectComma => "expected `,` or `\x7d`"
  | .expectedWord => "expected ident"
  | .expectedValue => "expected value"
  | .invalidEscape => "invalid escape"
  | .invalidNumber => "invalid number"
  | .outOfRange => "number out of range"
  | .controlCharacter => "control character (\\u0000-\\u001F) found while parsing a string"
  | .keyNotString => "key must be a string"
  | .loneSurrogate => "lone leading surrogate in hex escape"
  | .escapeCutShort => "unexpected end of hex escape"
  | .trailingComma => "trailing comma"
  | .trailingCharacters => "trailing characters"
  | .tooDeep => "recursion limit exceeded"

end Fault

end Likeness.Json
