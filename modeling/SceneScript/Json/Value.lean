import SceneScript.Number.Decimal

/-! Document values as trees. Members keep their order and may repeat a key; a number remembers
whether it was written as an integer. -/

namespace SceneScript

inductive Numeral
  | integer (value : Int)
  | real (value : Binary64)
deriving DecidableEq

namespace Numeral

def toBinary64 : Numeral → Binary64
  | integer i => .ofInt i
  | real x => x

/-- The text of a number; a value that is not finite has none and is written `null`. -/
def text : Numeral → String
  | integer i => toString i
  | real x => if x.isFinite then x.documentText else "null"

end Numeral

inductive Json
  | null
  | bool (value : Bool)
  | number (value : Numeral)
  | string (value : String)
  | array (items : List Json)
  | object (members : List (String × Json))

namespace Json

mutual

/-- Whether two values are the same, so that equality of values can be decided. -/
def same : Json → Json → Bool
  | .null, .null => true
  | .bool x, .bool y => x == y
  | .number x, .number y => x == y
  | .string x, .string y => x == y
  | .array xs, .array ys => sameItems xs ys
  | .object ms, .object ns => sameMembers ms ns
  | _, _ => false

def sameItems : List Json → List Json → Bool
  | [], [] => true
  | x :: xs, y :: ys => x.same y && sameItems xs ys
  | _, _ => false

def sameMembers : List (String × Json) → List (String × Json) → Bool
  | [], [] => true
  | (k, x) :: ms, (l, y) :: ns => k == l && x.same y && sameMembers ms ns
  | _, _ => false

end

mutual

theorem same_iff : ∀ a b : Json, a.same b = true ↔ a = b
  | .null, b | .bool _, b | .number _, b | .string _, b => by cases b <;> simp [same]
  | .array xs, b => by cases b <;> simp [same, sameItems_iff xs]
  | .object ms, b => by cases b <;> simp [same, sameMembers_iff ms]

theorem sameItems_iff : ∀ xs ys : List Json, sameItems xs ys = true ↔ xs = ys
  | [], [] | [], _ :: _ | _ :: _, [] => by simp [sameItems]
  | x :: xs, y :: ys => by simp [sameItems, same_iff x y, sameItems_iff xs ys]

theorem sameMembers_iff : ∀ ms ns : List (String × Json), sameMembers ms ns = true ↔ ms = ns
  | [], [] | [], _ :: _ | _ :: _, [] => by simp [sameMembers]
  | (k, x) :: ms, (l, y) :: ns => by simp [sameMembers, same_iff x y, sameMembers_iff ms ns]

end

instance : DecidableEq Json := fun a b => decidable_of_iff _ (same_iff a b)

def real (x : Binary64) : Json := .number (.real x)

/-- Whether the value is an object with a member of this name. -/
def hasMember (key : String) : Json → Bool
  | .object members => members.any (·.1 == key)
  | _ => false

def insertMember (m : String × Json) : List (String × Json) → List (String × Json)
  | [] => [m]
  | n :: ns => if m.1 < n.1 then m :: n :: ns else n :: insertMember m ns

mutual

/-- The same value with the members of every object in the order of their keys. -/
def sorted : Json → Json
  | .array items => .array (sortedItems items)
  | .object members => .object (sortedMembers members)
  | json => json

def sortedItems : List Json → List Json
  | [] => []
  | item :: items => item.sorted :: sortedItems items

def sortedMembers : List (String × Json) → List (String × Json)
  | [] => []
  | (key, value) :: members => insertMember (key, value.sorted) (sortedMembers members)

end

end Json

end SceneScript
