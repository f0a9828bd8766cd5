import SceneScript.Json.Value
import SceneScript.Text.Quoted

/-! Why a text is not a document value, or not one of the shape that is wanted, and the message
for each cause. -/

namespace SceneScript

/-- What was being read when the text ended. -/
inductive Unfinished
  | value
  | string
  | list
  | object
deriving DecidableEq, Repr

/-- What stands where something else is wanted. -/
inductive Found
  | null
  | bool (value : Bool)
  | number (value : Numeral)
  | string (value : String)
  | sequence
  | map
deriving DecidableEq

def Json.found : Json → Found
  | .null => .null
  | .bool b => .bool b
  | .number n => .number n
  | .string s => .string s
  | .array _ => .sequence
  | .object _ => .map

inductive Fault
  | eof (reading : Unfinished)
  | expectedValue
  | expectedIdent
  | expectedColon
  | expectedListCommaOrEnd
  | expectedObjectCommaOrEnd
  | keyMustBeString
  | trailingComma
  | trailingCharacters
  | recursionLimit
  | invalidNumber
  | numberOutOfRange
  | invalidEscape
  | invalidCodePoint
  | loneSurrogate
  | unfinishedSurrogatePair
  | controlCharacter
  | missingField (name : String)
  | duplicateField (name : String)
  | unknownVariant (name : String) (options : List String)
  | invalidType (found : Found) (expected : String)
  | invalidIndex (found : Int) (variants : Nat)
  | invalidLength (found : Nat) (expected : String)
deriving DecidableEq

def Unfinished.name : Unfinished → String
  | value => "a value"
  | string => "a string"
  | list => "a list"
  | object => "an object"

def Found.text : Found → String
  | null => "null"
  | bool b => if b then "boolean `true`" else "boolean `false`"
  | number (.integer i) => "integer `" ++ toString i ++ "`"
  | number (.real x) => "floating point `" ++ x.documentText ++ "`"
  | string s => "string " ++ Text.quoted s
  | sequence => "sequence"
  | map => "map"

def ticked (name : String) : String := "`" ++ name ++ "`"

/-- The names a choice offers. -/
def oneOf : List String → String
  | [a] => ticked a
  | [a, b] => ticked a ++ " or " ++ ticked b
  | names => "one of " ++ ", ".intercalate (names.map ticked)

/-- A number of parts, as a length is wanted. -/
def elements (n : Nat) : String :=
  toString n ++ if n = 1 then " element" else " elements"

namespace Fault

def message : Fault → String
  | eof reading => "EOF while parsing " ++ reading.name
  | expectedValue => "expected value"
  | expectedIdent => "expected ident"
  | expectedColon => "expected `:`"
  | expectedListCommaOrEnd => "expected `,` or `]`"
  | expectedObjectCommaOrEnd => "expected `,` or `\x7d`"
  | keyMustBeString => "key must be a string"
  | trailingComma => "trailing comma"
  | trailingCharacters => "trailing characters"
  | recursionLimit => "recursion limit exceeded"
  | invalidNumber => "invalid number"
  | numberOutOfRange => "number out of range"
  | invalidEscape => "invalid escape"
  | invalidCodePoint => "invalid unicode code point"
  | loneSurrogate => "lone leading surrogate in hex escape"
  | unfinishedSurrogatePair => "unexpected end of hex escape"
  | controlCharacter => "control character (\\u0000-\\u001F) found while parsing a string"
  | missingField name => "missing field " ++ ticked name
  | duplicateField name => "duplicate field " ++ ticked name
  | unknownVariant name options =>
    "unknown variant " ++ ticked name ++ ", expected " ++ oneOf options
  | invalidType found expected => "invalid type: " ++ found.text ++ ", expected " ++ expected
  | invalidIndex found variants =>
    "invalid value: integer " ++ ticked (toString found) ++ ", expected variant index 0 <= i < "
      ++ toString variants
  | invalidLength found expected =>
    "invalid length " ++ toString found ++ ", expected " ++ expected

/-- Something of another kind stands where `expected` is wanted. -/
def mismatch (found : Json) (expected : String) : Fault := invalidType found.found expected

end Fault

end SceneScript
