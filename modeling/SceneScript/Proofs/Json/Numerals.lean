import SceneScript.Proofs.Json.Trees
import SceneScript.Proofs.Number.Bounds

/-! The numbers of a document value. Each was read where it stands, and the reader lets none through
that is not finite. Whoever folds over a text and goes as deep as the reader has met a value that
can be read. -/

namespace SceneScript

namespace Json

mutual

/-- The numbers of a value, in order. -/
def numerals : Json → List Numeral
  | .number n => [n]
  | .array items => numeralsItems items
  | .object members => numeralsMembers members
  | _ => []

def numeralsItems : List Json → List Numeral
  | [] => []
  | item :: items => item.numerals ++ numeralsItems items

def numeralsMembers : List (String × Json) → List Numeral
  | [] => []
  | (_, value) :: members => value.numerals ++ numeralsMembers members

end

variable {n depth : Nat} {first : Bool} {src rest : Source} {json : Json} {items : List Json}
  {ms : List (String × Json)}

theorem numeralsItems_eq (items : List Json) : numeralsItems items = items.flatMap numerals := by
  induction items with
  | nil => rfl
  | cons item items ih => rw [numeralsItems, ih, List.flatMap_cons]

theorem numeralsMembers_eq (ms : List (String × Json)) :
    numeralsMembers ms = ms.flatMap fun m => m.2.numerals := by
  induction ms with
  | nil => rfl
  | cons m ms ih => rw [numeralsMembers, ih, List.flatMap_cons]

/-! ## Values that were read -/

/-- Every number of the value is finite. -/
def Finite (json : Json) : Prop := ∀ n ∈ json.numerals, n.toBinary64.isFinite = true

theorem read_of_readValue {x : Numeral} (h : readValue n depth src = .ok (.number x, rest)) :
    ∃ here, Scaled.read here = .ok (x, rest) := by
  unfold readValue at h
  split at h
  · cases h
  · cases h
  rename_i c behind _
  dsimp only at h
  split at h
  · cases readWord_ok h
  split at h
  · cases readWord_ok h
  split at h
  · cases readWord_ok h
  split at h
  · obtain ⟨⟨s, next⟩, -, h⟩ := bind_eq_ok h
    cases h
  split at h
  · obtain ⟨⟨y, next⟩, hread, h⟩ := bind_eq_ok h
    cases h
    exact ⟨_, hread⟩
  split at h
  · cases depth with
    | zero => cases h
    | succ depth =>
      obtain ⟨⟨items, next⟩, -, h⟩ := bind_eq_ok h
      cases h
  split at h
  · cases depth with
    | zero => cases h
    | succ depth =>
      obtain ⟨⟨ms, next⟩, -, h⟩ := bind_eq_ok h
      cases h
  · cases h

theorem finite_array : (Json.array items).Finite ↔ ∀ item ∈ items, item.Finite := by
  simp only [Finite, numerals, numeralsItems_eq, List.mem_flatMap]
  exact ⟨fun h item hitem n hn => h n ⟨item, hitem, hn⟩,
    fun h n ⟨item, hitem, hn⟩ => h item hitem n hn⟩

theorem finite_object : (Json.object ms).Finite ↔ ∀ m ∈ ms, m.2.Finite := by
  simp only [Finite, numerals, numeralsMembers_eq, List.mem_flatMap]
  exact ⟨fun h m hm n hn => h n ⟨m, hm, hn⟩, fun h n ⟨m, hm, hn⟩ => h m hm n hn⟩

theorem ItemsRead.finite (hvalue : ∀ {src rest json}, readValue n depth src = .ok (json, rest) →
    json.Finite) (h : ItemsRead n depth first src items rest) : ∀ item ∈ items, item.Finite := by
  induction h with
  | close _ => exact nofun
  | item _ hread _ ih => exact List.forall_mem_cons.mpr ⟨hvalue hread, ih⟩

theorem MembersRead.finite (hvalue : ∀ {src rest json}, readValue n depth src = .ok (json, rest) →
    json.Finite) (h : MembersRead n depth first src ms rest) : ∀ m ∈ ms, m.2.Finite := by
  induction h with
  | close _ => exact nofun
  | member _ _ _ hread _ ih => exact List.forall_mem_cons.mpr ⟨hvalue hread, ih⟩

/-- By induction on the depth: each number is read where it stands. -/
theorem finite_read (h : readValue n depth src = .ok (json, rest)) : json.Finite := by
  induction depth using Nat.strongRecOn generalizing src json rest with
  | ind depth ih =>
    obtain ⟨hflat, -, -⟩ | ⟨d, behind, items, rfl, rfl, -, -, hitems⟩ |
      ⟨d, behind, ms, rfl, rfl, -, -, hms⟩ := readValue_cases h
    · cases json with
      | number x =>
        obtain ⟨here, hread⟩ := read_of_readValue h
        exact List.forall_mem_singleton.mpr (Scaled.isFinite_read hread)
      | array items => cases hflat
      | object ms => cases hflat
      | _ => exact nofun
    · exact finite_array.mpr (hitems.finite fun h => ih d (Nat.lt_succ_self d) h)
    · exact finite_object.mpr (hms.finite fun h => ih d (Nat.lt_succ_self d) h)

theorem finite_ofText {s : String} (h : ofText s = .ok json) : json.Finite := by
  obtain ⟨rest, hread, -⟩ := ofSource_eq_ok h
  exact finite_read hread

/-! ## Folds that go as deep as the reader -/

theorem itemsRead_of {σ : Type} {item : σ → Source → Except Fault (Read σ)}
    (hitem : ∀ {acc here acc' next}, item acc here = .ok (acc', next) →
      ∃ json, readValue n depth here = .ok (json, next)) {k : Nat} {acc acc' : σ}
    (h : foldItems item k first acc src = .ok (acc', rest)) :
    ∃ items, items.length < k ∧ ItemsRead n depth first src items rest := by
  induction k generalizing first acc src with
  | zero => cases h
  | succ k ih =>
    obtain ⟨at?, hnext, h⟩ := bind_eq_ok h
    cases at? with
    | inr behind =>
      cases h
      exact ⟨[], Nat.succ_pos k, .close hnext⟩
    | inl here =>
      obtain ⟨⟨met, next⟩, hmet, h⟩ := bind_eq_ok h
      obtain ⟨json, hread⟩ := hitem hmet
      obtain ⟨items, hk, hitems⟩ := ih h
      exact ⟨json :: items, Nat.succ_lt_succ hk, .item hnext hread hitems⟩

theorem membersRead_of {σ : Type} {member : σ → String → Source → Except Fault (Read σ)}
    (hmember : ∀ {acc key colon acc' next}, member acc key colon = .ok (acc', next) →
      ∃ value json, readColon colon = .ok value ∧ readValue n depth value = .ok (json, next))
    {k : Nat} {acc acc' : σ} (h : foldMembers n member k first acc src = .ok (acc', rest)) :
    ∃ ms, ms.length < k ∧ MembersRead n depth first src ms rest := by
  induction k generalizing first acc src with
  | zero => cases h
  | succ k ih =>
    obtain ⟨at?, hnext, h⟩ := bind_eq_ok h
    cases at? with
    | inr behind =>
      cases h
      exact ⟨[], Nat.succ_pos k, .close hnext⟩
    | inl here =>
      obtain ⟨⟨key, colon⟩, hkey, h⟩ := bind_eq_ok h
      obtain ⟨⟨met, next⟩, hmet, h⟩ := bind_eq_ok h
      obtain ⟨value, json, hcolon, hread⟩ := hmember hmet
      obtain ⟨ms, hk, hms⟩ := ih h
      exact ⟨(key, json) :: ms, Nat.succ_lt_succ hk, .member hnext hkey hcolon hread hms⟩

/-- A string that was read is a value. -/
theorem readValue_of_readText {expected s : String} (h : readText n expected src = .ok (s, rest))
    (depth : Nat) : ∃ json, readValue n depth src = .ok (json, rest) := by
  obtain ⟨⟨found, next⟩, hfound, h⟩ := bind_eq_ok h
  unfold readFound at hfound
  split at hfound
  · cases hfound
    cases h
  · cases hfound
    cases h
  obtain ⟨⟨json, after⟩, hread, hfound⟩ := bind_eq_ok hfound
  cases hfound
  split at h
  · rename_i heq
    rw [Prod.mk.injEq] at heq
    obtain ⟨-, rfl⟩ := heq
    cases h
    obtain ⟨-, -, hany⟩ | ⟨d, -, -, hd, -⟩ | ⟨d, -, -, hd, -⟩ := readValue_cases hread
    · refine ⟨json, ?_⟩
      rw [← readValue_skipBlank]
      exact hany depth
    · cases hd
    · cases hd
  · cases h

end Json

end SceneScript
