import SceneScript.Json.Fault

/-! The text to be read, symbol by symbol. Text that came as bytes may hold bytes that belong to
no character; they stay in the sequence as what they are. -/

namespace SceneScript

inductive Symbol
  | char (c : Char)
  | stray (byte : UInt8)
deriving DecidableEq

abbrev Source := List Symbol

/-- What was read, and the rest of the text. -/
abbrev Read (α : Type) := α × Source

/-- How many bytes a symbol takes. -/
def Symbol.width : Symbol → Nat
  | char c => c.utf8Size
  | stray _ => 1

/-- How many bytes a text takes. -/
def Source.width : Source → Nat
  | [] => 0
  | s :: rest => s.width + width rest

/-- The digit a symbol is, if it is one. -/
def Symbol.digit? : Symbol → Option Nat
  | char c => if c.isDigit then some (c.toNat - '0'.toNat) else none
  | stray _ => none

def Symbol.isBlank : Symbol → Bool
  | char c => c = ' ' ∨ c = '\t' ∨ c = '\n' ∨ c = '\r'
  | stray _ => false

namespace Source

def ofString (s : String) : Source := s.toList.map .char

/-- The characters from position `i` on, each byte that starts none standing for itself. -/
def ofBytesFrom (bytes : ByteArray) : Nat → Nat → Source
  | 0, _ => []
  | n + 1, i =>
    if h : i < bytes.size then
      match bytes.utf8DecodeChar? i with
      | some c => .char c :: ofBytesFrom bytes n (i + c.utf8Size)
      | none => .stray bytes[i] :: ofBytesFrom bytes n (i + 1)
    else []

def ofBytes (bytes : ByteArray) : Source :=
  match String.fromUTF8? bytes with
  | some s => ofString s
  | none => ofBytesFrom bytes bytes.size 0

end Source

/-- Space, tab, line feed and carriage return may stand between any two parts. -/
def skipBlank (src : Source) : Source := src.dropWhile Symbol.isBlank

/-- Nothing but blanks may follow. -/
def finish {α : Type} : Read α → Except Fault α
  | (a, rest) => if skipBlank rest = [] then .ok a else .error .trailingCharacters

end SceneScript
