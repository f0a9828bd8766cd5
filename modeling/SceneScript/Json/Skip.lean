import SceneScript.Json.Reader

/-! Passing over a value that nobody asked for. Only its outline is checked: words, the spelling of
numbers and escapes, and brackets that match. Neither nesting nor the range of a number is
limited. -/

namespace SceneScript.Json

def skipDigits (src : Source) : Except Fault Source :=
  if Scaled.countDigits src = 0 then .error .invalidNumber else .ok (Scaled.dropDigits src)

/-- Past an exponent, if there is one. -/
def skipExponent : Source → Except Fault Source
  | .char c :: rest =>
    if c = 'e' ∨ c = 'E' then
      match rest with
      | .char '+' :: rest => skipDigits rest
      | .char '-' :: rest => skipDigits rest
      | rest => skipDigits rest
    else .ok (.char c :: rest)
  | src => .ok src

/-- Past a number without its sign. -/
def skipNumber (src : Source) : Except Fault Source := do
  let rest ← skipDigits src
  if src.head? = some (.char '0') ∧ 1 < Scaled.countDigits src then .error .invalidNumber
  else
    match rest with
    | .char '.' :: rest => skipExponent (← skipDigits rest)
    | rest => skipExponent rest

/-- Past a string, after its opening quote. -/
def skipString : Nat → Source → Except Fault Source
  | 0, _ => .error (.eof .string)
  | _, [] => .error (.eof .string)
  | n + 1, .stray _ :: rest => skipString n rest
  | n + 1, .char c :: rest =>
    if c = '"' then .ok rest
    else if c = '\\' then
      match rest with
      | [] => .error (.eof .string)
      | .stray _ :: _ => .error .invalidEscape
      | .char l :: rest =>
        if l = 'u' then do
          let (_, rest) ← readUnit rest
          skipString n rest
        else if (ofLetter? l).isSome then skipString n rest
        else .error .invalidEscape
    else if c.toNat < 0x20 then .error .controlCharacter
    else skipString n rest

/-- What an open bracket will be closed by. -/
inductive Bracket
  | list
  | object
deriving DecidableEq

def Bracket.close : Bracket → Symbol
  | list => .char ']'
  | object => .char '\x7d'

def Bracket.unfinished : Bracket → Fault
  | list => .eof .list
  | object => .eof .object

def Bracket.unseparated : Bracket → Fault
  | list => .expectedListCommaOrEnd
  | object => .expectedObjectCommaOrEnd

/-- Past the brackets that close here: those still open, the innermost first, and the text where
the next value or key starts. `full` says whether the innermost one holds something already. -/
def skipClosed : List Bracket → Bool → Nat → Source → Except Fault (List Bracket × Source)
  | [], _, _, src => .ok ([], src)
  | _, _, 0, _ => .error (.eof .value)
  | b :: bs, full, n + 1, src =>
    match skipBlank src with
    | [] => .error b.unfinished
    | s :: rest =>
      if s = .char ',' ∧ full then .ok (b :: bs, rest)
      else if s = b.close then skipClosed bs true n rest
      else if full then .error b.unseparated
      else .ok (b :: bs, s :: rest)

/-- Past a key and its colon, in an object. -/
def skipKey (n : Nat) (b : Bracket) (src : Source) : Except Fault Source :=
  match b with
  | .list => .ok src
  | .object =>
    match skipBlank src with
    | [] => .error (.eof .object)
    | s :: rest =>
      if s = .char '"' then do readColon (← skipString n rest) else .error .keyMustBeString

/-- Past a value without parts, or into one with parts. -/
def skipStart (n : Nat) (src : Source) : Except Fault (Option Bracket × Source) :=
  match skipBlank src with
  | [] => .error (.eof .value)
  | .stray _ :: _ => .error .expectedValue
  | .char c :: rest => do
    if c = '[' then .ok (some .list, rest)
    else if c = '\x7b' then .ok (some .object, rest)
    else if c = '-' then .ok (none, ← skipNumber rest)
    else if c.isDigit then .ok (none, ← skipNumber (.char c :: rest))
    else if c = '"' then .ok (none, ← skipString n rest)
    else
      let (_, rest) ←
        if c = 'n' then readWord () ['u', 'l', 'l'] rest
        else if c = 't' then readWord () ['r', 'u', 'e'] rest
        else if c = 'f' then readWord () ['a', 'l', 's', 'e'] rest
        else .error .expectedValue
      .ok (none, rest)

/-- Past a value inside the brackets that are open. -/
def skipValue (bound : Nat) : Nat → List Bracket → Source → Except Fault Source
  | 0, _, _ => .error (.eof .value)
  | n + 1, opened, src => do
    let (start, src) ← skipStart bound src
    let (opened, src) ←
      match start with
      | some b => skipClosed (b :: opened) false bound src
      | none => skipClosed opened true bound src
    match opened with
    | [] => .ok src
    | b :: _ => skipValue bound n opened (← skipKey bound b src)

end SceneScript.Json
