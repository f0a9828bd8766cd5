import SceneScript.Json.Source

/-! Strings in a document. A backslash escapes one character, or gives it as one or two code units
of 16 bits. -/

namespace SceneScript.Json

/-- The character a letter stands for after a backslash. -/
def ofLetter? : Char → Option Char
  | '"' => some '"'
  | '\\' => some '\\'
  | '/' => some '/'
  | 'b' => some '\x08'
  | 'f' => some '\x0c'
  | 'n' => some '\n'
  | 'r' => some '\r'
  | 't' => some '\t'
  | _ => none

def hexDigit? : Symbol → Option Nat
  | .char c =>
    if c.isDigit then some (c.toNat - '0'.toNat)
    else if 'a' ≤ c ∧ c ≤ 'f' then some (c.toNat - 'a'.toNat + 10)
    else if 'A' ≤ c ∧ c ≤ 'F' then some (c.toNat - 'A'.toNat + 10)
    else none
  | .stray _ => none

/-- Four hexadecimal digits. Four bytes have to be left before any of them is looked at. -/
def readUnit (src : Source) : Except Fault (Read Nat) :=
  if Source.width (src.take 4) < 4 then .error (.eof .string)
  else
    match src with
    | a :: b :: c :: d :: rest =>
      match hexDigit? a, hexDigit? b, hexDigit? c, hexDigit? d with
      | some a, some b, some c, some d => .ok (((a * 16 + b) * 16 + c) * 16 + d, rest)
      | _, _, _, _ => .error .invalidEscape
    | _ => .error .invalidEscape

/-- The second code unit of a character beyond the first plane. -/
def readLowUnit : Source → Except Fault (Read Nat)
  | [] => .error (.eof .string)
  | .char '\\' :: [] => .error (.eof .string)
  | .char '\\' :: .char 'u' :: rest => do
    let (low, rest) ← readUnit rest
    if 0xDC00 ≤ low ∧ low ≤ 0xDFFF then .ok (low, rest) else .error .loneSurrogate
  | _ => .error .unfinishedSurrogatePair

/-- The character given by code units. -/
def readUnits (src : Source) : Except Fault (Read Char) := do
  let (unit, rest) ← readUnit src
  if 0xDC00 ≤ unit ∧ unit ≤ 0xDFFF then .error .loneSurrogate
  else if 0xD800 ≤ unit ∧ unit ≤ 0xDBFF then
    let (low, rest) ← readLowUnit rest
    .ok (Char.ofNat (0x10000 + (unit - 0xD800) * 0x400 + (low - 0xDC00)), rest)
  else .ok (Char.ofNat unit, rest)

/-- What follows a backslash. -/
def readEscape : Source → Except Fault (Read Char)
  | [] => .error (.eof .string)
  | .char 'u' :: rest => readUnits rest
  | .char l :: rest =>
    match ofLetter? l with
    | some c => .ok (c, rest)
    | none => .error .invalidEscape
  | .stray _ :: _ => .error .invalidEscape

/-- A string after its opening quote, of at most `n` characters: `done` holds those already read,
the last one first, and `clean` whether all bytes so far belong to characters. -/
def readString : Nat → List Char → Bool → Source → Except Fault (Read String)
  | 0, _, _, _ => .error (.eof .string)
  | n + 1, done, clean, src =>
    match src with
    | [] => .error (.eof .string)
    | .stray _ :: rest => readString n done false rest
    | .char c :: rest =>
      if c = '"' then
        if clean then .ok (.ofList done.reverse, rest) else .error .invalidCodePoint
      else if c = '\\' then do
        let (c, rest) ← readEscape rest
        readString n (c :: done) clean rest
      else if c.toNat < 0x20 then .error .controlCharacter
      else readString n (c :: done) clean rest

end SceneScript.Json
