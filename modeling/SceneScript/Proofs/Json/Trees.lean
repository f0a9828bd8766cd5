import SceneScript.Proofs.Json.Reading

/-! What the reader met in a text. A list that was read is a run of items and an object a run of
members, each where it stands. Whoever else folds over the same text meets the same ones, so what
it comes to is told from the tree alone. -/

namespace SceneScript.Json

/-- What stands behind an opening bracket: `items`, each nested at most `depth` levels deep. -/
inductive ItemsRead (n depth : Nat) : Bool → Source → List Json → Source → Prop
  | close {first : Bool} {src rest : Source} : nextItem first src = .ok (.inr rest) →
      ItemsRead n depth first src [] rest
  | item {first : Bool} {src here next rest : Source} {json : Json} {items : List Json} :
      nextItem first src = .ok (.inl here) → readValue n depth here = .ok (json, next) →
      ItemsRead n depth false next items rest → ItemsRead n depth first src (json :: items) rest

/-- What stands behind an opening brace. -/
inductive MembersRead (n depth : Nat) : Bool → Source → List (String × Json) → Source → Prop
  | close {first : Bool} {src rest : Source} : nextKey first src = .ok (.inr rest) →
      MembersRead n depth first src [] rest
  | member {first : Bool} {src here colon value next rest : Source} {key : String} {json : Json}
      {ms : List (String × Json)} :
      nextKey first src = .ok (.inl here) → readString n [] true here = .ok (key, colon) →
      readColon colon = .ok value → readValue n depth value = .ok (json, next) →
      MembersRead n depth false next ms rest →
      MembersRead n depth first src ((key, json) :: ms) rest

variable {n depth : Nat} {first : Bool} {src rest : Source} {json : Json}

/-! ## From the folds of the reader -/

theorem itemsRead_of_fold {k : Nat} {done items : List Json}
    (h : foldItems (readItem (readValue n depth)) k first done src = .ok (items, rest)) :
    ∃ met, items = met.reverse ++ done ∧ met.length < k ∧
      ItemsRead n depth first src met rest := by
  induction k generalizing first done src with
  | zero => cases h
  | succ k ih =>
    obtain ⟨at?, hnext, h⟩ := bind_eq_ok h
    cases at? with
    | inr behind =>
      cases h
      exact ⟨[], rfl, Nat.succ_pos k, .close hnext⟩
    | inl here =>
      obtain ⟨⟨acc, next⟩, hitem, h⟩ := bind_eq_ok h
      obtain ⟨⟨json, next'⟩, hvalue, hitem⟩ := bind_eq_ok hitem
      cases hitem
      obtain ⟨met, rfl, hk, hmet⟩ := ih h
      exact ⟨json :: met, by simp, Nat.succ_lt_succ hk, .item hnext hvalue hmet⟩

theorem membersRead_of_fold {k : Nat} {done ms : List (String × Json)}
    (h : foldMembers n (readMember (readValue n depth)) k first done src = .ok (ms, rest)) :
    ∃ met, ms = met.reverse ++ done ∧ met.length < k ∧
      MembersRead n depth first src met rest := by
  induction k generalizing first done src with
  | zero => cases h
  | succ k ih =>
    obtain ⟨at?, hnext, h⟩ := bind_eq_ok h
    cases at? with
    | inr behind =>
      cases h
      exact ⟨[], rfl, Nat.succ_pos k, .close hnext⟩
    | inl here =>
      obtain ⟨⟨key, colon⟩, hkey, h⟩ := bind_eq_ok h
      obtain ⟨⟨acc, next⟩, hmember, h⟩ := bind_eq_ok h
      obtain ⟨value, hcolon, hmember⟩ := bind_eq_ok hmember
      obtain ⟨⟨json, next'⟩, hvalue, hmember⟩ := bind_eq_ok hmember
      cases hmember
      obtain ⟨met, rfl, hk, hmet⟩ := ih h
      exact ⟨(key, json) :: met, by simp, Nat.succ_lt_succ hk,
        .member hnext hkey hcolon hvalue hmet⟩

theorem readWord_ok {value : Json} {cs : List Char} (h : readWord value cs src = .ok (json, rest)) :
    json = value := by
  induction cs generalizing src with
  | nil => cases h; rfl
  | cons c cs ih =>
    cases src with
    | nil => cases h
    | cons s src =>
      simp only [readWord] at h
      split at h
      · exact ih h
      · cases h

/-- A value that was read is one token, which any depth allows, or it is a list or an object. -/
theorem readValue_cases (h : readValue n depth src = .ok (json, rest)) :
    (json.depth = 0 ∧ readFound n src = .ok (json.found, rest) ∧
      ∀ d, readValue n d src = .ok (json, rest)) ∨
    (∃ d behind items, depth = d + 1 ∧ json = .array items ∧
      skipBlank src = .char '[' :: behind ∧ items.length < n ∧
      ItemsRead n d true behind items rest) ∨
    ∃ d behind ms, depth = d + 1 ∧ json = .object ms ∧
      skipBlank src = .char '\x7b' :: behind ∧ ms.length < n ∧
      MembersRead n d true behind ms rest := by
  unfold readValue at h
  cases hsrc : skipBlank src with
  | nil => simp [hsrc] at h
  | cons s behind =>
    cases s with
    | stray b => simp [hsrc] at h
    | char c =>
      by_cases hlist : c = '['
      · subst hlist
        cases depth with
        | zero => simp [hsrc] at h
        | succ d =>
          simp only [hsrc, Char.reduceEq, if_false, if_true, Char.reduceIsDigit, or_self,
            Bool.false_eq_true] at h
          obtain ⟨⟨items, next⟩, hfold, h⟩ := bind_eq_ok h
          cases h
          obtain ⟨met, rfl, hlength, hmet⟩ := itemsRead_of_fold hfold
          exact .inr (.inl ⟨d, behind, met, rfl, by simp, rfl, hlength, hmet⟩)
      by_cases hobject : c = '\x7b'
      · subst hobject
        cases depth with
        | zero => simp [hsrc] at h
        | succ d =>
          simp only [hsrc, Char.reduceEq, if_false, if_true, Char.reduceIsDigit, or_self,
            Bool.false_eq_true] at h
          obtain ⟨⟨ms, next⟩, hfold, h⟩ := bind_eq_ok h
          cases h
          obtain ⟨met, rfl, hlength, hmet⟩ := membersRead_of_fold hfold
          exact .inr (.inr ⟨d, behind, met, rfl, by simp, rfl, hlength, hmet⟩)
      -- one token: nothing of it depends on the depth
      have hany : ∀ d, readValue n d src = .ok (json, rest) := by
        intro d
        unfold readValue
        simp only [hsrc, if_neg hlist, if_neg hobject] at h ⊢
        exact h
      refine .inl ⟨?_, ?_, hany⟩
      · simp only [hsrc, if_neg hlist, if_neg hobject] at h
        split at h
        · rw [readWord_ok h]; rfl
        split at h
        · rw [readWord_ok h]; rfl
        split at h
        · rw [readWord_ok h]; rfl
        split at h
        · obtain ⟨⟨s, next⟩, -, h⟩ := bind_eq_ok h
          cases h
          rfl
        split at h
        · obtain ⟨⟨x, next⟩, -, h⟩ := bind_eq_ok h
          cases h
          rfl
        · cases h
      · unfold readFound
        rw [hsrc]
        split
        · rename_i heq
          cases heq
          exact absurd rfl hlist
        · rename_i heq
          cases heq
          exact absurd rfl hobject
        · have hzero := hany 0
          have hskip : readValue n 0 (.char c :: behind) = readValue n 0 src := by
            rw [← hsrc, readValue_skipBlank]
          rw [hskip, hzero]
          rfl

/-! ## How deep a value that was read nests -/

theorem depthItems_read (hvalue : ∀ {src rest json}, readValue n depth src = .ok (json, rest) →
    json.depth ≤ depth) {items : List Json} (h : ItemsRead n depth first src items rest) :
    depthItems items ≤ depth := by
  induction h with
  | close _ => exact Nat.zero_le _
  | item _ hread _ ih => exact Nat.max_le.mpr ⟨hvalue hread, ih⟩

theorem depthMembers_read (hvalue : ∀ {src rest json}, readValue n depth src = .ok (json, rest) →
    json.depth ≤ depth) {ms : List (String × Json)} (h : MembersRead n depth first src ms rest) :
    depthMembers ms ≤ depth := by
  induction h with
  | close _ => exact Nat.zero_le _
  | member _ _ _ hread _ ih => exact Nat.max_le.mpr ⟨hvalue hread, ih⟩

theorem depth_read (h : readValue n depth src = .ok (json, rest)) : json.depth ≤ depth := by
  induction depth generalizing src json rest with
  | zero =>
    obtain ⟨hflat, -, -⟩ | ⟨d, behind, items, hd, -⟩ | ⟨d, behind, ms, hd, -⟩ := readValue_cases h
    · exact Nat.le_of_eq hflat
    · cases hd
    · cases hd
  | succ depth ih =>
    obtain ⟨hflat, -, -⟩ | ⟨d, behind, items, hd, rfl, -, -, hitems⟩ |
      ⟨d, behind, ms, hd, rfl, -, -, hms⟩ := readValue_cases h
    · exact hflat ▸ Nat.zero_le _
    · cases hd
      exact Nat.succ_le_succ (depthItems_read ih hitems)
    · cases hd
      exact Nat.succ_le_succ (depthMembers_read ih hms)

/-! ## What another fold comes to -/

theorem ItemsRead.fold {σ : Type} {item : σ → Source → Except Fault (Read σ)}
    {step : σ → Json → Option σ} {items : List Json} (h : ItemsRead n depth first src items rest)
    (hitem : ∀ acc {here json next}, readValue n depth here = .ok (json, next) →
      (item acc here).toOption = (step acc json).map (·, next))
    {k : Nat} (hk : items.length < k) (acc : σ) :
    (foldItems item k first acc src).toOption = (items.foldlM step acc).map (·, rest) := by
  induction h generalizing k acc with
  | close hnext =>
    obtain ⟨k, rfl⟩ : ∃ m, k = m + 1 := ⟨k - 1, by omega⟩
    simp only [foldItems, hnext]
    rfl
  | item hnext hread _ ih =>
    obtain ⟨k, rfl⟩ : ∃ m, k = m + 1 := ⟨k - 1, by omega⟩
    rw [foldItems_next hnext (hitem acc hread), List.foldlM_cons]
    cases step acc _ with
    | none => rfl
    | some acc => exact ih (Nat.lt_of_succ_lt_succ hk) acc

theorem MembersRead.fold {σ : Type} {member : σ → String → Source → Except Fault (Read σ)}
    {step : σ → String × Json → Option σ} {ms : List (String × Json)}
    (h : MembersRead n depth first src ms rest)
    (hmember : ∀ acc key {colon value json next}, readColon colon = .ok value →
      readValue n depth value = .ok (json, next) →
      (member acc key colon).toOption = (step acc (key, json)).map (·, next))
    {k : Nat} (hk : ms.length < k) (acc : σ) :
    (foldMembers n member k first acc src).toOption = (ms.foldlM step acc).map (·, rest) := by
  induction h generalizing k acc with
  | close hnext =>
    obtain ⟨k, rfl⟩ : ∃ m, k = m + 1 := ⟨k - 1, by omega⟩
    simp only [foldMembers, hnext]
    rfl
  | member hnext hkey hcolon hread _ ih =>
    obtain ⟨k, rfl⟩ : ∃ m, k = m + 1 := ⟨k - 1, by omega⟩
    simp only [foldMembers, hnext]
    simp only [bind_ok, hkey]
    rw [toOption_bind_read (hmember acc _ hcolon hread), List.foldlM_cons]
    cases step acc _ with
    | none => rfl
    | some acc => exact ih (Nat.lt_of_succ_lt_succ hk) acc

/-- The string a value is, if it is one. -/
def string? : Json → Option String
  | .string s => some s
  | _ => none

/-- Where a string is wanted, the string that stands there is read, and nothing else. -/
theorem readText_read (h : readValue n depth src = .ok (json, rest)) (expected : String) :
    (readText n expected src).toOption = json.string?.map (·, rest) := by
  obtain ⟨hflat, hfound, -⟩ | ⟨d, behind, items, -, rfl, hsrc, -⟩ |
    ⟨d, behind, ms, -, rfl, hsrc, -⟩ := readValue_cases h
  · cases json with
    | array items => simp [Json.depth] at hflat
    | object ms => simp [Json.depth] at hflat
    | _ => simp only [readText, hfound]; rfl
  · simp [readText, readFound, hsrc, string?, bind, Except.bind, Except.toOption]
  · simp [readText, readFound, hsrc, string?, bind, Except.bind, Except.toOption]

theorem ofSource_eq_ok (h : ofSource src = .ok json) :
    ∃ rest, readValue (bound src) maxDepth src = .ok (json, rest) ∧ skipBlank rest = [] := by
  obtain ⟨⟨read, rest⟩, hread, h⟩ := bind_eq_ok h
  simp only [finish] at h
  split at h
  · rename_i hrest
    cases h
    exact ⟨rest, hread, hrest⟩
  · cases h

theorem depth_ofText {s : String} (h : ofText s = .ok json) : json.depth ≤ maxDepth := by
  obtain ⟨rest, hread, -⟩ := ofSource_eq_ok h
  exact depth_read hread

end SceneScript.Json
