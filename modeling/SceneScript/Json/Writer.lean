import SceneScript.Json.Value

/-! The text of a document value, on one line or indented by two spaces. -/

namespace SceneScript.Json

/-- The letter that stands for a character after a backslash. -/
def letter? : Char → Option Char
  | '"' => some '"'
  | '\\' => some '\\'
  | '\x08' => some 'b'
  | '\x0c' => some 'f'
  | '\n' => some 'n'
  | '\r' => some 'r'
  | '\t' => some 't'
  | _ => none

/-- The digits of a code point below 256, four of them. -/
def hexQuad (n : Nat) : List Char :=
  ['0', '0', Nat.digitChar (n / 16), Nat.digitChar (n % 16)]

/-- A quote, a backslash and the control characters below the space are escaped, nothing else. -/
def escaped (c : Char) : List Char :=
  match letter? c with
  | some l => ['\\', l]
  | none => if c.toNat < 0x20 then '\\' :: 'u' :: hexQuad c.toNat else [c]

def quoted (s : String) : List Char := '"' :: s.toList.flatMap escaped ++ ['"']

mutual

/-- The value on one line, without blanks. -/
def compactChars : Json → List Char
  | .null => "null".toList
  | .bool b => (if b then "true" else "false").toList
  | .number n => n.text.toList
  | .string s => quoted s
  | .array [] => ['[', ']']
  | .array (item :: items) => '[' :: compactChars item ++ compactItems items
  | .object [] => ['\x7b', '\x7d']
  | .object ((key, value) :: members) =>
    '\x7b' :: quoted key ++ ':' :: compactChars value ++ compactMembers members

def compactItems : List Json → List Char
  | [] => [']']
  | item :: items => ',' :: compactChars item ++ compactItems items

def compactMembers : List (String × Json) → List Char
  | [] => ['\x7d']
  | (key, value) :: members =>
    ',' :: quoted key ++ ':' :: compactChars value ++ compactMembers members

end

def newline (depth : Nat) : List Char := '\n' :: List.replicate (2 * depth) ' '

mutual

/-- The value with every item and member on a line of its own, `depth` levels deep. -/
def prettyChars (depth : Nat) : Json → List Char
  | .null => "null".toList
  | .bool b => (if b then "true" else "false").toList
  | .number n => n.text.toList
  | .string s => quoted s
  | .array [] => ['[', ']']
  | .array (item :: items) =>
    '[' :: newline (depth + 1) ++ prettyChars (depth + 1) item ++ prettyItems depth items
  | .object [] => ['\x7b', '\x7d']
  | .object ((key, value) :: members) =>
    '\x7b' :: newline (depth + 1) ++ quoted key ++ ':' :: ' ' :: prettyChars (depth + 1) value
      ++ prettyMembers depth members

def prettyItems (depth : Nat) : List Json → List Char
  | [] => newline depth ++ [']']
  | item :: items =>
    ',' :: newline (depth + 1) ++ prettyChars (depth + 1) item ++ prettyItems depth items

def prettyMembers (depth : Nat) : List (String × Json) → List Char
  | [] => newline depth ++ ['\x7d']
  | (key, value) :: members =>
    ',' :: newline (depth + 1) ++ quoted key ++ ':' :: ' ' :: prettyChars (depth + 1) value
      ++ prettyMembers depth members

end

def compact (json : Json) : String := .ofList json.compactChars

def pretty (json : Json) : String := .ofList (json.prettyChars 0)

end SceneScript.Json
