import SceneScript.Json.Scaled
import SceneScript.Json.Text

/-! Reading document values. Items and members are folded over as they are met, so that a fault in
one comes before a fault in the text behind it. Every loop is bounded by the length `n` of the
whole text, and nesting by `depth`. -/

namespace SceneScript.Json

/-- How deep lists and objects may nest. -/
def maxDepth : Nat := 127

/-- The rest of a word whose first letter was met. -/
def readWord {α : Type} (value : α) : List Char → Source → Except Fault (Read α)
  | [], src => .ok (value, src)
  | _, [] => .error (.eof .value)
  | c :: cs, s :: rest => if s = .char c then readWord value cs rest else .error .expectedIdent

/-- Where the next item of a list starts, or the rest of the text behind the list. -/
def nextItem (first : Bool) (src : Source) : Except Fault (Source ⊕ Source) :=
  match skipBlank src with
  | [] => .error (.eof .list)
  | s :: rest =>
    if s = .char ']' then .ok (.inr rest)
    else if first then .ok (.inl (s :: rest))
    else if s = .char ',' then
      match skipBlank rest with
      | [] => .error (.eof .value)
      | s :: rest => if s = .char ']' then .error .trailingComma else .ok (.inl (s :: rest))
    else .error .expectedListCommaOrEnd

/-- Folds over the items of a list, after its bracket. -/
def foldItems {σ : Type} (item : σ → Source → Except Fault (Read σ)) :
    Nat → Bool → σ → Source → Except Fault (Read σ)
  | 0, _, _, _ => .error (.eof .list)
  | n + 1, first, acc, src => do
    match ← nextItem first src with
    | .inr rest => .ok (acc, rest)
    | .inl src =>
      let (acc, rest) ← item acc src
      foldItems item n false acc rest

/-- Where the next key of an object starts, after its quote, or the rest behind the object. -/
def nextKey (first : Bool) (src : Source) : Except Fault (Source ⊕ Source) :=
  match skipBlank src with
  | [] => .error (.eof .object)
  | s :: rest =>
    if s = .char '\x7d' then .ok (.inr rest)
    else if first then
      if s = .char '"' then .ok (.inl rest) else .error .keyMustBeString
    else if s = .char ',' then
      match skipBlank rest with
      | [] => .error (.eof .value)
      | s :: rest =>
        if s = .char '"' then .ok (.inl rest)
        else if s = .char '\x7d' then .error .trailingComma
        else .error .keyMustBeString
    else .error .expectedObjectCommaOrEnd

/-- Folds over the members of an object, after its brace. A member is given by its key and the
text behind the key. -/
def foldMembers {σ : Type} (bound : Nat) (member : σ → String → Source → Except Fault (Read σ)) :
    Nat → Bool → σ → Source → Except Fault (Read σ)
  | 0, _, _, _ => .error (.eof .object)
  | n + 1, first, acc, src => do
    match ← nextKey first src with
    | .inr rest => .ok (acc, rest)
    | .inl src =>
      let (key, rest) ← readString bound [] true src
      let (acc, rest) ← member acc key rest
      foldMembers bound member n false acc rest

/-- The colon between a key and its value. -/
def readColon (src : Source) : Except Fault Source :=
  match skipBlank src with
  | [] => .error (.eof .object)
  | s :: rest => if s = .char ':' then .ok rest else .error .expectedColon

def readItem (value : Source → Except Fault (Read Json)) (done : List Json) (src : Source) :
    Except Fault (Read (List Json)) := do
  let (item, rest) ← value src
  .ok (item :: done, rest)

def readMember (value : Source → Except Fault (Read Json)) (done : List (String × Json))
    (key : String) (src : Source) : Except Fault (Read (List (String × Json))) := do
  let (item, rest) ← value (← readColon src)
  .ok ((key, item) :: done, rest)

/-- Reads one value. -/
def readValue (n : Nat) : Nat → Source → Except Fault (Read Json)
  | depth, src =>
    match skipBlank src with
    | [] => .error (.eof .value)
    | .stray _ :: _ => .error .expectedValue
    | .char c :: rest =>
      if c = 'n' then readWord .null ['u', 'l', 'l'] rest
      else if c = 't' then readWord (.bool true) ['r', 'u', 'e'] rest
      else if c = 'f' then readWord (.bool false) ['a', 'l', 's', 'e'] rest
      else if c = '"' then do
        let (s, rest) ← readString n [] true rest
        .ok (.string s, rest)
      else if c = '-' ∨ c.isDigit then do
        let (x, rest) ← Scaled.read (.char c :: rest)
        .ok (.number x, rest)
      else if c = '[' then
        match depth with
        | 0 => .error .recursionLimit
        | depth + 1 => do
          let (items, rest) ← foldItems (readItem (readValue n depth)) n true [] rest
          .ok (.array items.reverse, rest)
      else if c = '\x7b' then
        match depth with
        | 0 => .error .recursionLimit
        | depth + 1 => do
          let (members, rest) ← foldMembers n (readMember (readValue n depth)) n true [] rest
          .ok (.object members.reverse, rest)
      else .error .expectedValue

/-- More rounds than any loop takes that reads a symbol in each. -/
def bound (src : Source) : Nat := src.length + 1

/-- Reads a text that is one value. -/
def ofSource (src : Source) : Except Fault Json := do
  finish (← readValue (bound src) maxDepth src)

def ofText (s : String) : Except Fault Json := ofSource (.ofString s)

/-- What stands where a word, a string or a flag is wanted: a value of one token, or the kind of a
longer one. -/
def readFound (n : Nat) (src : Source) : Except Fault (Read Found) :=
  match skipBlank src with
  | .char '[' :: rest => .ok (.sequence, rest)
  | .char '\x7b' :: rest => .ok (.map, rest)
  | src => do
    let (json, rest) ← readValue n 0 src
    .ok (json.found, rest)

/-- Reads a string, which `expected` names. -/
def readText (n : Nat) (expected : String) (src : Source) : Except Fault (Read String) := do
  match ← readFound n src with
  | (.string s, rest) => .ok (s, rest)
  | (found, _) => .error (.invalidType found expected)

end SceneScript.Json
