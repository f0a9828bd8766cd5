import SceneScript.Proofs.Json.Numbers

/-! The two layouts of a document value as one. Both write the same symbols and differ only in the
blanks between them, so what is proved of every layout with blanks holds for both. -/

namespace SceneScript

namespace Json

/-- Induction on a value through its items and members. -/
@[elab_as_elim]
theorem induct {P : Json → Prop} (null : P .null) (bool : ∀ b, P (.bool b))
    (number : ∀ n, P (.number n)) (string : ∀ s, P (.string s))
    (array : ∀ items : List Json, (∀ item ∈ items, P item) → P (.array items))
    (object : ∀ members : List (String × Json), (∀ m ∈ members, P m.2) → P (.object members)) :
    ∀ json, P json
  | .null => null
  | .bool b => bool b
  | .number n => number n
  | .string s => string s
  | .array items => array items fun item _ => induct null bool number string array object item
  | .object members =>
    object members fun m _ => induct null bool number string array object m.2
termination_by json => sizeOf json
decreasing_by
  · have := List.sizeOf_lt_of_mem ‹item ∈ items›
    simp only [Json.array.sizeOf_spec]
    omega
  · have := List.sizeOf_lt_of_mem ‹m ∈ members›
    obtain ⟨key, value⟩ := m
    simp only [Json.object.sizeOf_spec, Prod.mk.sizeOf_spec] at this ⊢
    omega

end Json

/-- The blanks in front of an item or a closing bracket, by depth, and behind a colon. -/
structure Layout where
  newline : Nat → List Char
  space : List Char

namespace Layout

def compact : Layout := ⟨fun _ => [], []⟩

def pretty : Layout := ⟨Json.newline, [' ']⟩

mutual

def chars (l : Layout) (depth : Nat) : Json → List Char
  | .null => "null".toList
  | .bool b => (if b then "true" else "false").toList
  | .number n => n.text.toList
  | .string s => Json.quoted s
  | .array items => '[' :: l.listBody depth items
  | .object members => '\x7b' :: l.objectBody depth members

/-- A list behind its bracket. -/
def listBody (l : Layout) (depth : Nat) : List Json → List Char
  | [] => [']']
  | item :: items =>
    l.newline (depth + 1) ++ (l.chars (depth + 1) item ++ l.listTail depth items)

/-- The end of a list that has an item. -/
def listTail (l : Layout) (depth : Nat) : List Json → List Char
  | [] => l.newline depth ++ [']']
  | item :: items =>
    ',' :: (l.newline (depth + 1) ++ (l.chars (depth + 1) item ++ l.listTail depth items))

/-- An object behind its brace. -/
def objectBody (l : Layout) (depth : Nat) : List (String × Json) → List Char
  | [] => ['\x7d']
  | (key, value) :: members =>
    l.newline (depth + 1) ++ (Json.quoted key ++ (':' :: (l.space ++
      (l.chars (depth + 1) value ++ l.objectTail depth members))))

/-- The end of an object that has a member. -/
def objectTail (l : Layout) (depth : Nat) : List (String × Json) → List Char
  | [] => l.newline depth ++ ['\x7d']
  | (key, value) :: members =>
    ',' :: (l.newline (depth + 1) ++ (Json.quoted key ++ (':' :: (l.space ++
      (l.chars (depth + 1) value ++ l.objectTail depth members)))))

end

/-- Only blanks are added. -/
structure IsBlank (l : Layout) : Prop where
  newline : ∀ depth, ∀ c ∈ l.newline depth, (Symbol.char c).isBlank = true
  space : ∀ c ∈ l.space, (Symbol.char c).isBlank = true

theorem compact_isBlank : compact.IsBlank := ⟨by simp [compact], by simp [compact]⟩

theorem pretty_isBlank : pretty.IsBlank := by
  refine ⟨fun depth c hc => ?_, by simp [pretty, Symbol.isBlank]⟩
  simp only [pretty, Json.newline, List.mem_cons, List.mem_replicate] at hc
  rcases hc with rfl | ⟨-, rfl⟩ <;> decide

end Layout

mutual

theorem compactChars_eq (depth : Nat) :
    ∀ json : Json, json.compactChars = Layout.compact.chars depth json
  | .null | .bool _ | .number _ | .string _ => rfl
  | .array [] => rfl
  | .array (item :: items) => by
    simp only [Json.compactChars, Layout.chars, Layout.listBody]
    rw [compactChars_eq (depth + 1) item, compactItems_eq depth items]
    rfl
  | .object [] => rfl
  | .object ((key, value) :: members) => by
    simp only [Json.compactChars, Layout.chars, Layout.objectBody]
    rw [compactChars_eq (depth + 1) value, compactMembers_eq depth members]
    simp [Layout.compact]

theorem compactItems_eq (depth : Nat) :
    ∀ items : List Json, Json.compactItems items = Layout.compact.listTail depth items
  | [] => rfl
  | item :: items => by
    simp only [Json.compactItems, Layout.listTail]
    rw [compactChars_eq (depth + 1) item, compactItems_eq depth items]
    rfl

theorem compactMembers_eq (depth : Nat) : ∀ members : List (String × Json),
    Json.compactMembers members = Layout.compact.objectTail depth members
  | [] => rfl
  | (key, value) :: members => by
    simp only [Json.compactMembers, Layout.objectTail]
    rw [compactChars_eq (depth + 1) value, compactMembers_eq depth members]
    simp [Layout.compact]

end

mutual

theorem prettyChars_eq : ∀ (depth : Nat) (json : Json),
    json.prettyChars depth = Layout.pretty.chars depth json
  | _, .null | _, .bool _ | _, .number _ | _, .string _ => rfl
  | _, .array [] => rfl
  | depth, .array (item :: items) => by
    simp only [Json.prettyChars, Layout.chars, Layout.listBody]
    rw [prettyChars_eq (depth + 1) item, prettyItems_eq depth items]
    simp [Layout.pretty]
  | _, .object [] => rfl
  | depth, .object ((key, value) :: members) => by
    simp only [Json.prettyChars, Layout.chars, Layout.objectBody]
    rw [prettyChars_eq (depth + 1) value, prettyMembers_eq depth members]
    simp [Layout.pretty]

theorem prettyItems_eq : ∀ (depth : Nat) (items : List Json),
    Json.prettyItems depth items = Layout.pretty.listTail depth items
  | _, [] => rfl
  | depth, item :: items => by
    simp only [Json.prettyItems, Layout.listTail]
    rw [prettyChars_eq (depth + 1) item, prettyItems_eq depth items]
    simp [Layout.pretty]

theorem prettyMembers_eq : ∀ (depth : Nat) (members : List (String × Json)),
    Json.prettyMembers depth members = Layout.pretty.objectTail depth members
  | _, [] => rfl
  | depth, (key, value) :: members => by
    simp only [Json.prettyMembers, Layout.objectTail]
    rw [prettyChars_eq (depth + 1) value, prettyMembers_eq depth members]
    simp [Layout.pretty]

end

end SceneScript
