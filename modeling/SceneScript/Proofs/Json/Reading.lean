import SceneScript.Proofs.Json.Blanks
import SceneScript.Proofs.Json.Layout
import SceneScript.Proofs.Outcome

/-! Reading what was written. In any layout, a value is read back up to two things: the depth of
its nesting, which the reader limits, and its numbers, each of which becomes what its own text
reads as. Both are part of the result here, so the equations hold for every value. -/

namespace SceneScript

open Source

theorem toOption_bind_read {α β : Type} {x : Except Fault (Read α)} {o : Option α} {rest : Source}
    (hx : x.toOption = o.map (·, rest)) (f : Read α → Except Fault β) :
    (x >>= f).toOption = o.bind fun a => (f (a, rest)).toOption := by
  rw [toOption_bind, hx]
  cases o <;> rfl

/-- What the text of a number reads as on its own. -/
def Numeral.readBack? (n : Numeral) : Option Json := (Json.ofText n.text).toOption

namespace Json

mutual

/-- How deep lists and objects nest. -/
def depth : Json → Nat
  | .array items => depthItems items + 1
  | .object members => depthMembers members + 1
  | _ => 0

def depthItems : List Json → Nat
  | [] => 0
  | item :: items => max item.depth (depthItems items)

def depthMembers : List (String × Json) → Nat
  | [] => 0
  | (_, value) :: members => max value.depth (depthMembers members)

end

mutual

/-- What a written value is read back as by a reader that goes `n` levels deep. -/
def readBack? : Nat → Json → Option Json
  | _, .number x => x.readBack?
  | 0, .array _ => none
  | n + 1, .array items => (readBackItems? n items).map .array
  | 0, .object _ => none
  | n + 1, .object members => (readBackMembers? n members).map .object
  | _, json => some json

def readBackItems? : Nat → List Json → Option (List Json)
  | _, [] => some []
  | n, item :: items => do
    let item ← item.readBack? n
    let items ← readBackItems? n items
    some (item :: items)

def readBackMembers? : Nat → List (String × Json) → Option (List (String × Json))
  | _, [] => some []
  | n, (key, value) :: members => do
    let value ← value.readBack? n
    let members ← readBackMembers? n members
    some ((key, value) :: members)

end

/-! ## Values without parts -/

theorem isDigit_ne {c : Char} (h : c.isDigit = true) :
    c ≠ 'n' ∧ c ≠ 't' ∧ c ≠ 'f' ∧ c ≠ '"' ∧ c ≠ '[' ∧ c ≠ '\x7b' ∧ c ≠ ']' ∧
      (Symbol.char c).isBlank = false := by
  refine ⟨?_, ?_, ?_, ?_, ?_, ?_, ?_, ?_⟩
  · rintro rfl; simp at h
  · rintro rfl; simp at h
  · rintro rfl; simp at h
  · rintro rfl; simp at h
  · rintro rfl; simp at h
  · rintro rfl; simp at h
  · rintro rfl; simp at h
  · simp only [Symbol.isBlank, decide_eq_false_iff_not, not_or]
    refine ⟨?_, ?_, ?_, ?_⟩ <;> (rintro rfl; simp at h)

theorem readValue_number {cs : List Char} (h : IsNumber cs) (n depth : Nat) (rest : Source) :
    readValue n depth (ofChars cs ++ rest) =
      (Scaled.read (ofChars cs ++ rest)).map fun r => (.number r.1, r.2) := by
  obtain ⟨c, cs', rfl, hc⟩ := h.head
  have hne : c ≠ 'n' ∧ c ≠ 't' ∧ c ≠ 'f' ∧ c ≠ '"' ∧ (Symbol.char c).isBlank = false := by
    rcases hc with rfl | hc
    · decide
    · obtain ⟨h1, h2, h3, h4, -, -, -, h5⟩ := isDigit_ne hc
      exact ⟨h1, h2, h3, h4, h5⟩
  obtain ⟨hn, ht, hf, hq, hb⟩ := hne
  simp only [ofChars, List.map_cons, List.cons_append]
  unfold readValue
  rw [skipBlank_cons hb]
  simp only [if_neg hn, if_neg ht, if_neg hf, if_neg hq, if_pos hc]
  cases Scaled.read (Symbol.char c :: (cs'.map Symbol.char ++ rest)) <;> rfl

theorem ofText_number {s : String} (h : IsNumber s.toList) {r : Except Fault Numeral}
    (hr : ReadsAs Scaled.read s.toList r) : ofText s = r.map .number := by
  have hread := readValue_number h (bound (.ofString s)) maxDepth []
  rw [hr [] ends_nil] at hread
  rw [List.append_nil] at hread
  unfold ofText ofSource
  rw [show Source.ofString s = ofChars s.toList from rfl] at hread ⊢
  rw [hread]
  cases r <;> rfl

theorem readValue_null (n depth : Nat) (rest : Source) :
    readValue n depth (ofChars "null".toList ++ rest) = .ok (.null, rest) := by
  simp [readValue, skipBlank, Symbol.isBlank, readWord]

theorem readValue_bool (n depth : Nat) (b : Bool) (rest : Source) :
    readValue n depth (ofChars (if b then "true" else "false").toList ++ rest) =
      .ok (.bool b, rest) := by
  cases b <;> simp [readValue, skipBlank, Symbol.isBlank, readWord]

theorem readValue_quoted (s : String) {n : Nat} (hn : s.length < n) (depth : Nat) (rest : Source) :
    readValue n depth (ofChars (quoted s) ++ rest) = .ok (.string s, rest) := by
  have hread := readString_quoted s n rest hn
  have hquote : (Symbol.char '"').isBlank = false := rfl
  have hsplit : ofChars (quoted s) = .char '"' :: (ofChars (quoted s)).tail := by
    simp [quoted]
  unfold readValue
  rw [hsplit, List.cons_append, skipBlank_cons hquote]
  simp [hread, bind, Except.bind]

theorem readText_quoted {bs : List Char} (hbs : ∀ c ∈ bs, (Symbol.char c).isBlank = true)
    (s : String) {n : Nat} (hn : s.length < n) (expected : String) (rest : Source) :
    readText n expected (ofChars (bs ++ quoted s) ++ rest) = .ok (s, rest) := by
  have hquote : (Symbol.char '"').isBlank = false := rfl
  have hread := readValue_quoted s hn 0 rest
  have hsplit : ofChars (quoted s) = .char '"' :: (ofChars (quoted s)).tail := by
    simp [quoted]
  have hskip : skipBlank (ofChars (bs ++ quoted s) ++ rest) = ofChars (quoted s) ++ rest := by
    rw [ofChars_append, List.append_assoc, skipBlank_append hbs, hsplit, List.cons_append,
      skipBlank_cons hquote]
  have hfound : readFound n (ofChars (bs ++ quoted s) ++ rest) = .ok (.string s, rest) := by
    unfold readFound
    rw [hskip]
    split
    · rename_i h
      rw [hsplit] at h
      simp at h
    · rename_i h
      rw [hsplit] at h
      simp at h
    · rw [hread]
      rfl
  simp only [readText, hfound]
  rfl

theorem readValue_numeral (x : Numeral) (n depth : Nat) {rest : Source} (hrest : rest.Ends) :
    (readValue n depth (ofChars x.text.toList ++ rest)).toOption =
      x.readBack?.map (·, rest) := by
  unfold Numeral.readBack?
  rcases x.text_shape with h | h
  · obtain ⟨r, hr⟩ := Scaled.read_isNumber h
    rw [readValue_number h, hr rest hrest, ofText_number h hr]
    cases r <;> rfl
  · rw [h, readValue_null]
    rfl

/-! ## What stands around a value -/

/-- A value starts with neither a blank nor a closing bracket. -/
theorem chars_head (l : Layout) (d : Nat) (json : Json) :
    ∃ c cs, l.chars d json = c :: cs ∧ (Symbol.char c).isBlank = false ∧ c ≠ ']' := by
  cases json with
  | null => exact ⟨'n', _, rfl, by decide, by decide⟩
  | bool b =>
    cases b with
    | true => exact ⟨'t', _, rfl, by decide, by decide⟩
    | false => exact ⟨'f', _, rfl, by decide, by decide⟩
  | number x =>
    simp only [Layout.chars]
    rcases x.text_shape with h | h
    · obtain ⟨c, cs, hcs, hc⟩ := h.head
      refine ⟨c, cs, hcs, ?_⟩
      rcases hc with rfl | hc
      · decide
      · obtain ⟨-, -, -, -, -, -, h1, h2⟩ := isDigit_ne hc
        exact ⟨h2, h1⟩
    · rw [h]
      exact ⟨'n', _, rfl, by decide, by decide⟩
  | string s => exact ⟨'"', _, rfl, by decide, by decide⟩
  | array items => exact ⟨'[', _, rfl, by decide, by decide⟩
  | object members => exact ⟨'\x7b', _, rfl, by decide, by decide⟩

theorem ends_append {cs : List Char} (h : ∀ c ∈ cs, (Symbol.char c).isBlank = true)
    {src : Source} (hsrc : src.Ends) : Ends (ofChars cs ++ src) := by
  cases cs with
  | nil => exact hsrc
  | cons c cs =>
    have hc := h c (by simp)
    simp only [Symbol.isBlank, decide_eq_true_eq] at hc
    refine ends_cons ?_ ?_ ?_ ?_ <;> rcases hc with rfl | rfl | rfl | rfl <;> decide

/-- What stands behind an item or a member. -/
theorem ends_mark {c : Char} (hc : c = ',' ∨ c = ']' ∨ c = '\x7d') (src : Source) :
    Ends (.char c :: src) := by
  refine ends_cons ?_ ?_ ?_ ?_ <;> rcases hc with rfl | rfl | rfl <;> decide

theorem ends_listTail {l : Layout} (hl : l.IsBlank) (d : Nat) (items : List Json) (rest : Source) :
    Ends (ofChars (l.listTail d items) ++ rest) := by
  cases items with
  | nil =>
    simp only [Layout.listTail, ofChars, List.map_append, List.append_assoc]
    exact ends_append (hl.newline d) (ends_mark (.inr (.inl rfl)) _)
  | cons item items => exact ends_mark (.inl rfl) _

theorem ends_objectTail {l : Layout} (hl : l.IsBlank) (d : Nat) (members : List (String × Json))
    (rest : Source) : Ends (ofChars (l.objectTail d members) ++ rest) := by
  cases members with
  | nil =>
    simp only [Layout.objectTail, ofChars, List.map_append, List.append_assoc]
    exact ends_append (hl.newline d) (ends_mark (.inr (.inr rfl)) _)
  | cons m members => exact ends_mark (.inl rfl) _

theorem nextItem_first {bs cs : List Char} {c : Char}
    (hbs : ∀ c ∈ bs, (Symbol.char c).isBlank = true) (hc : (Symbol.char c).isBlank = false)
    (hclose : c ≠ ']') (rest : Source) :
    nextItem true (ofChars (bs ++ c :: cs) ++ rest) = .ok (.inl (ofChars (c :: cs) ++ rest)) := by
  unfold nextItem
  simp only [ofChars, List.map_append, List.map_cons, List.append_assoc, List.cons_append]
  rw [skipBlank_append hbs, skipBlank_cons hc]
  simp [hclose]

theorem nextItem_comma {bs cs : List Char} {c : Char}
    (hbs : ∀ c ∈ bs, (Symbol.char c).isBlank = true) (hc : (Symbol.char c).isBlank = false)
    (hclose : c ≠ ']') (rest : Source) :
    nextItem false (ofChars (',' :: (bs ++ c :: cs)) ++ rest) =
      .ok (.inl (ofChars (c :: cs) ++ rest)) := by
  have hcomma : (Symbol.char ',').isBlank = false := rfl
  unfold nextItem
  simp only [ofChars, List.map_append, List.map_cons, List.append_assoc, List.cons_append]
  rw [skipBlank_cons hcomma]
  simp only [Symbol.char.injEq, Char.reduceEq, if_false, if_true, Bool.false_eq_true]
  rw [skipBlank_append hbs, skipBlank_cons hc]
  simp [hclose]

theorem nextItem_close {bs : List Char} (hbs : ∀ c ∈ bs, (Symbol.char c).isBlank = true)
    (first : Bool) (rest : Source) :
    nextItem first (ofChars (bs ++ [']']) ++ rest) = .ok (.inr rest) := by
  have hclose : (Symbol.char ']').isBlank = false := rfl
  unfold nextItem
  simp only [ofChars, List.map_append, List.map_cons, List.map_nil, List.append_assoc,
    List.cons_append, List.nil_append]
  rw [skipBlank_append hbs, skipBlank_cons hclose]
  simp

/-! ## Lists -/

section

variable {σ : Type} {item : σ → Source → Except Fault (Read σ)} {step : σ → Json → Option σ}

/-- An item, read where it stands in a list. -/
def ReadsItem (l : Layout) (d : Nat) (item : σ → Source → Except Fault (Read σ))
    (step : σ → Json → Option σ) (json : Json) : Prop :=
  ∀ acc rest, Ends rest →
    (item acc (ofChars (l.chars (d + 1) json) ++ rest)).toOption = (step acc json).map (·, rest)

theorem foldItems_next {n : Nat} {first : Bool} {acc : σ} {json : Json} {src here rest : Source}
    (hnext : nextItem first src = .ok (.inl here))
    (hitem : (item acc here).toOption = (step acc json).map (·, rest)) :
    (foldItems item (n + 1) first acc src).toOption =
      (step acc json).bind fun acc => (foldItems item n false acc rest).toOption := by
  simp only [foldItems, hnext]
  exact toOption_bind_read hitem _

theorem foldItems_listTail {l : Layout} (hl : l.IsBlank) (d : Nat) (items : List Json)
    (h : ∀ json ∈ items, ReadsItem l d item step json) (n : Nat) (hn : items.length < n)
    (acc : σ) (rest : Source) :
    (foldItems item n false acc (ofChars (l.listTail d items) ++ rest)).toOption =
      (items.foldlM step acc).map (·, rest) := by
  induction items generalizing n acc with
  | nil =>
    obtain ⟨n, rfl⟩ : ∃ m, n = m + 1 := ⟨n - 1, by simp at hn; omega⟩
    simp only [Layout.listTail, foldItems]
    rw [nextItem_close (hl.newline d)]
    rfl
  | cons json items ih =>
    obtain ⟨n, rfl⟩ : ∃ m, n = m + 1 := ⟨n - 1, by simp at hn; omega⟩
    obtain ⟨c, cs, hcs, hc, hclose⟩ := chars_head l (d + 1) json
    have hitem := h json (by simp) acc _ (ends_listTail hl d items rest)
    have htail := fun acc => ih (fun j hj => h j (by simp [hj])) n (by simpa using hn) acc
    rw [← List.append_assoc, ← ofChars_append, hcs, List.cons_append] at hitem
    simp only [Layout.listTail, hcs, List.cons_append]
    rw [foldItems_next (nextItem_comma (hl.newline (d + 1)) hc hclose rest) hitem]
    simp only [htail, List.foldlM_cons]
    cases step acc json <;> rfl

theorem foldItems_listBody {l : Layout} (hl : l.IsBlank) (d : Nat) (items : List Json)
    (h : ∀ json ∈ items, ReadsItem l d item step json) (n : Nat) (hn : items.length < n)
    (acc : σ) (rest : Source) :
    (foldItems item n true acc (ofChars (l.listBody d items) ++ rest)).toOption =
      (items.foldlM step acc).map (·, rest) := by
  obtain ⟨n, rfl⟩ : ∃ m, n = m + 1 := ⟨n - 1, by omega⟩
  cases items with
  | nil =>
    have hclose := @nextItem_close [] (by simp) true rest
    simp only [Layout.listBody, foldItems]
    rw [List.nil_append] at hclose
    rw [hclose]
    rfl
  | cons json items =>
    obtain ⟨c, cs, hcs, hc, hclose⟩ := chars_head l (d + 1) json
    have hitem := h json (by simp) acc _ (ends_listTail hl d items rest)
    have htail := foldItems_listTail hl d items (fun j hj => h j (by simp [hj])) n
      (by simpa using hn)
    rw [← List.append_assoc, ← ofChars_append, hcs, List.cons_append] at hitem
    simp only [Layout.listBody, hcs, List.cons_append]
    rw [foldItems_next (nextItem_first (hl.newline (d + 1)) hc hclose rest) hitem]
    simp only [htail, List.foldlM_cons]
    cases step acc json <;> rfl

end

/-! ## Objects -/

theorem nextKey_first {bs cs : List Char} (hbs : ∀ c ∈ bs, (Symbol.char c).isBlank = true)
    (s : String) (rest : Source) :
    nextKey true (ofChars (bs ++ (quoted s ++ cs)) ++ rest) =
      .ok (.inl ((ofChars (quoted s)).tail ++ (ofChars cs ++ rest))) := by
  have hquote : (Symbol.char '"').isBlank = false := rfl
  have hsplit : ofChars (quoted s) = .char '"' :: (ofChars (quoted s)).tail := by
    simp [quoted]
  unfold nextKey
  simp only [ofChars_append, List.append_assoc]
  rw [skipBlank_append hbs, hsplit, List.cons_append, skipBlank_cons hquote]
  simp

theorem nextKey_comma {bs cs : List Char} (hbs : ∀ c ∈ bs, (Symbol.char c).isBlank = true)
    (s : String) (rest : Source) :
    nextKey false (ofChars (',' :: (bs ++ (quoted s ++ cs))) ++ rest) =
      .ok (.inl ((ofChars (quoted s)).tail ++ (ofChars cs ++ rest))) := by
  have hcomma : (Symbol.char ',').isBlank = false := rfl
  have hquote : (Symbol.char '"').isBlank = false := rfl
  have hsplit : ofChars (quoted s) = .char '"' :: (ofChars (quoted s)).tail := by
    simp [quoted]
  unfold nextKey
  simp only [ofChars_cons, ofChars_append, List.append_assoc, List.cons_append]
  rw [skipBlank_cons hcomma]
  simp only [Symbol.char.injEq, Char.reduceEq, if_false, if_true, Bool.false_eq_true]
  rw [skipBlank_append hbs, hsplit, List.cons_append, skipBlank_cons hquote]
  simp

theorem nextKey_close {bs : List Char} (hbs : ∀ c ∈ bs, (Symbol.char c).isBlank = true)
    (first : Bool) (rest : Source) :
    nextKey first (ofChars (bs ++ ['\x7d']) ++ rest) = .ok (.inr rest) := by
  have hclose : (Symbol.char '\x7d').isBlank = false := rfl
  unfold nextKey
  simp only [ofChars_cons, ofChars_append, List.append_assoc, List.cons_append]
  rw [skipBlank_append hbs, skipBlank_cons hclose]
  simp

theorem readColon_cons (src : Source) : readColon (.char ':' :: src) = .ok src := by
  have hcolon : (Symbol.char ':').isBlank = false := rfl
  unfold readColon
  rw [skipBlank_cons hcolon]
  simp

section

variable {σ : Type} {member : σ → String → Source → Except Fault (Read σ)}
  {step : σ → String × Json → Option σ}

/-- A member, read behind its key where it stands in an object. -/
def ReadsMember (l : Layout) (d : Nat) (member : σ → String → Source → Except Fault (Read σ))
    (step : σ → String × Json → Option σ) (m : String × Json) : Prop :=
  ∀ acc rest, Ends rest →
    (member acc m.1 (ofChars (':' :: (l.space ++ l.chars (d + 1) m.2)) ++ rest)).toOption =
      (step acc m).map (·, rest)

theorem foldMembers_next {bound n : Nat} {first : Bool} {acc : σ} {m : String × Json}
    {src here rest : Source} (hkey : m.1.length < bound)
    (hnext : nextKey first src = .ok (.inl ((ofChars (quoted m.1)).tail ++ here)))
    (hmember : (member acc m.1 here).toOption = (step acc m).map (·, rest)) :
    (foldMembers bound member (n + 1) first acc src).toOption =
      (step acc m).bind fun acc => (foldMembers bound member n false acc rest).toOption := by
  simp only [foldMembers, hnext]
  simp only [bind, Except.bind, readString_quoted m.1 bound here hkey]
  exact toOption_bind_read hmember _

theorem foldMembers_objectTail {l : Layout} (hl : l.IsBlank) (d bound : Nat)
    (members : List (String × Json)) (h : ∀ m ∈ members, ReadsMember l d member step m)
    (hkeys : ∀ m ∈ members, m.1.length < bound) (n : Nat) (hn : members.length < n)
    (acc : σ) (rest : Source) :
    (foldMembers bound member n false acc (ofChars (l.objectTail d members) ++ rest)).toOption =
      (members.foldlM step acc).map (·, rest) := by
  induction members generalizing n acc with
  | nil =>
    obtain ⟨n, rfl⟩ : ∃ m, n = m + 1 := ⟨n - 1, by simp at hn; omega⟩
    simp only [Layout.objectTail, foldMembers]
    rw [nextKey_close (hl.newline d)]
    rfl
  | cons m members ih =>
    obtain ⟨n, rfl⟩ : ∃ m, n = m + 1 := ⟨n - 1, by simp at hn; omega⟩
    obtain ⟨key, value⟩ := m
    have hmember := h (key, value) (by simp) acc _ (ends_objectTail hl d members rest)
    have htail := fun acc => ih (fun m hm => h m (by simp [hm]))
      (fun m hm => hkeys m (by simp [hm])) n (by simpa using hn) acc
    rw [← List.append_assoc, ← ofChars_append, List.cons_append, List.append_assoc] at hmember
    simp only [Layout.objectTail]
    rw [foldMembers_next (hkeys (key, value) (by simp))
      (nextKey_comma (hl.newline (d + 1)) key rest) hmember]
    simp only [htail, List.foldlM_cons]
    cases step acc (key, value) <;> rfl

theorem foldMembers_objectBody {l : Layout} (hl : l.IsBlank) (d bound : Nat)
    (members : List (String × Json)) (h : ∀ m ∈ members, ReadsMember l d member step m)
    (hkeys : ∀ m ∈ members, m.1.length < bound) (n : Nat) (hn : members.length < n)
    (acc : σ) (rest : Source) :
    (foldMembers bound member n true acc (ofChars (l.objectBody d members) ++ rest)).toOption =
      (members.foldlM step acc).map (·, rest) := by
  obtain ⟨n, rfl⟩ : ∃ m, n = m + 1 := ⟨n - 1, by omega⟩
  cases members with
  | nil =>
    have hclose := @nextKey_close [] (by simp) true rest
    simp only [Layout.objectBody, foldMembers]
    rw [List.nil_append] at hclose
    rw [hclose]
    rfl
  | cons m members =>
    obtain ⟨key, value⟩ := m
    have hmember := h (key, value) (by simp) acc _ (ends_objectTail hl d members rest)
    have htail := foldMembers_objectTail hl d bound members (fun m hm => h m (by simp [hm]))
      (fun m hm => hkeys m (by simp [hm])) n (by simpa using hn)
    rw [← List.append_assoc, ← ofChars_append, List.cons_append, List.append_assoc] at hmember
    simp only [Layout.objectBody]
    rw [foldMembers_next (hkeys (key, value) (by simp))
      (nextKey_first (hl.newline (d + 1)) key rest) hmember]
    simp only [htail, List.foldlM_cons]
    cases step acc (key, value) <;> rfl

end

/-! ## Every value -/

theorem length_listTail (l : Layout) (d : Nat) (items : List Json) :
    items.length < (l.listTail d items).length ∧
      ∀ item ∈ items, (l.chars (d + 1) item).length < (l.listTail d items).length := by
  induction items with
  | nil => simp [Layout.listTail]
  | cons item items ih =>
    obtain ⟨hlength, hitems⟩ := ih
    refine ⟨by simp [Layout.listTail]; omega, fun other hother => ?_⟩
    simp only [Layout.listTail, List.length_cons, List.length_append]
    rcases List.mem_cons.mp hother with rfl | hother
    · omega
    · have := hitems other hother
      omega

theorem length_listBody (l : Layout) (d : Nat) (items : List Json) :
    items.length ≤ (l.listBody d items).length ∧
      ∀ item ∈ items, (l.chars (d + 1) item).length < (l.listBody d items).length := by
  cases items with
  | nil => simp
  | cons item items =>
    obtain ⟨hlength, hitems⟩ := length_listTail l d items
    refine ⟨by simp [Layout.listBody]; omega, fun other hother => ?_⟩
    simp only [Layout.listBody, List.length_append]
    rcases List.mem_cons.mp hother with rfl | hother
    · omega
    · have := hitems other hother
      omega

theorem length_objectTail (l : Layout) (d : Nat) (members : List (String × Json)) :
    members.length < (l.objectTail d members).length ∧
      ∀ m ∈ members, m.1.length < (l.objectTail d members).length ∧
        (l.chars (d + 1) m.2).length < (l.objectTail d members).length := by
  induction members with
  | nil => simp [Layout.objectTail]
  | cons m members ih =>
    obtain ⟨hlength, hmembers⟩ := ih
    obtain ⟨key, value⟩ := m
    have hquoted := length_le_quoted key
    refine ⟨by simp [Layout.objectTail]; omega, fun other hother => ?_⟩
    simp only [Layout.objectTail, List.length_cons, List.length_append]
    rcases List.mem_cons.mp hother with rfl | hother
    · constructor <;> simp only <;> omega
    · have := hmembers other hother
      omega

theorem length_objectBody (l : Layout) (d : Nat) (members : List (String × Json)) :
    members.length ≤ (l.objectBody d members).length ∧
      ∀ m ∈ members, m.1.length < (l.objectBody d members).length ∧
        (l.chars (d + 1) m.2).length < (l.objectBody d members).length := by
  cases members with
  | nil => simp
  | cons m members =>
    obtain ⟨hlength, hmembers⟩ := length_objectTail l d members
    obtain ⟨key, value⟩ := m
    have hquoted := length_le_quoted key
    refine ⟨by simp [Layout.objectBody]; omega, fun other hother => ?_⟩
    simp only [Layout.objectBody, List.length_cons, List.length_append]
    rcases List.mem_cons.mp hother with rfl | hother
    · constructor <;> simp only <;> omega
    · have := hmembers other hother
      omega

theorem foldlM_readBackItems (n : Nat) (items : List Json) (done : List Json) :
    items.foldlM (fun done item => (item.readBack? n).map (· :: done)) done =
      (readBackItems? n items).map fun items => items.reverse ++ done := by
  induction items generalizing done with
  | nil => rfl
  | cons item items ih =>
    simp only [List.foldlM_cons, readBackItems?]
    cases item.readBack? n with
    | none => rfl
    | some item =>
      simp only [Option.map_some, bind, Option.bind, ih]
      cases readBackItems? n items <;> simp

theorem foldlM_readBackMembers (n : Nat) (members done : List (String × Json)) :
    members.foldlM (fun done m => (m.2.readBack? n).map fun value => (m.1, value) :: done) done =
      (readBackMembers? n members).map fun members => members.reverse ++ done := by
  induction members generalizing done with
  | nil => rfl
  | cons m members ih =>
    obtain ⟨key, value⟩ := m
    simp only [List.foldlM_cons, readBackMembers?]
    cases value.readBack? n with
    | none => rfl
    | some value =>
      simp only [Option.map_some, bind, Option.bind, ih]
      cases readBackMembers? n members <;> simp

/-- A value behind its colon. -/
theorem readColon_value {l : Layout} (hl : l.IsBlank) {n depth d : Nat} {json : Json}
    {rest : Source}
    (h : (readValue n depth (ofChars (l.chars d json) ++ rest)).toOption =
      (json.readBack? depth).map (·, rest)) :
    (readColon (ofChars (':' :: (l.space ++ l.chars d json)) ++ rest) >>=
      readValue n depth).toOption = (json.readBack? depth).map (·, rest) := by
  rw [ofChars_cons, List.cons_append, readColon_cons, ofChars_append, List.append_assoc]
  change (readValue n depth (ofChars l.space ++ (ofChars (l.chars d json) ++ rest))).toOption = _
  rw [readValue_append hl.space, h]

theorem readValue_chars {l : Layout} (hl : l.IsBlank) (json : Json) :
    ∀ (n depth d : Nat) (rest : Source), (l.chars d json).length < n → Ends rest →
      (readValue n depth (ofChars (l.chars d json) ++ rest)).toOption =
        (json.readBack? depth).map (·, rest) := by
  induction json using Json.induct with
  | null =>
    intro n depth d rest _ _
    rw [Layout.chars, readValue_null]
    cases depth <;> rfl
  | bool b =>
    intro n depth d rest _ _
    rw [Layout.chars, readValue_bool]
    cases depth <;> rfl
  | number x =>
    intro n depth d rest _ hrest
    rw [Layout.chars, readValue_numeral x n depth hrest]
    cases depth <;> rfl
  | string s =>
    intro n depth d rest hn _
    have hlength := length_le_quoted s
    rw [Layout.chars] at hn ⊢
    rw [readValue_quoted s (by omega)]
    cases depth <;> rfl
  | array items ih =>
    intro n depth d rest hn _
    obtain ⟨hlength, hitems⟩ := length_listBody l d items
    simp only [Layout.chars, List.length_cons] at hn
    have hopen : (Symbol.char '[').isBlank = false := rfl
    unfold readValue
    rw [Layout.chars, ofChars_cons, List.cons_append, skipBlank_cons hopen]
    simp only [Char.reduceEq, if_false, if_true, Char.reduceIsDigit, or_self, Bool.false_eq_true]
    cases depth with
    | zero => rfl
    | succ depth =>
      have hread : ∀ item ∈ items, ReadsItem l d (readItem (readValue n depth))
          (fun done item => (item.readBack? depth).map (· :: done)) item := by
        intro item hitem acc rest hrest
        have hlt := hitems item hitem
        simp only [readItem]
        rw [toOption_bind_read (ih item hitem n depth (d + 1) rest (by omega) hrest)]
        cases item.readBack? depth <;> rfl
      have hfold := foldItems_listBody hl d items hread n (by omega) [] rest
      simp only [toOption_bind_read hfold, foldlM_readBackItems, readBack?]
      cases readBackItems? depth items <;> simp [Except.toOption]
  | object members ih =>
    intro n depth d rest hn _
    obtain ⟨hlength, hmembers⟩ := length_objectBody l d members
    simp only [Layout.chars, List.length_cons] at hn
    have hopen : (Symbol.char '\x7b').isBlank = false := rfl
    unfold readValue
    rw [Layout.chars, ofChars_cons, List.cons_append, skipBlank_cons hopen]
    simp only [Char.reduceEq, if_false, if_true, Char.reduceIsDigit, or_self, Bool.false_eq_true]
    cases depth with
    | zero => rfl
    | succ depth =>
      have hread : ∀ m ∈ members, ReadsMember l d (readMember (readValue n depth))
          (fun done m => (m.2.readBack? depth).map fun value => (m.1, value) :: done) m := by
        intro m hm acc rest hrest
        have hlt := (hmembers m hm).2
        have hvalue := readColon_value hl (ih m hm n depth (d + 1) rest (by omega) hrest)
        simp only [readMember]
        rw [← bind_assoc, toOption_bind_read hvalue]
        cases m.2.readBack? depth <;> rfl
      have hfold := foldMembers_objectBody hl d n members hread
        (fun m hm => by have := (hmembers m hm).1; omega) n (by omega) [] rest
      simp only [toOption_bind_read hfold, foldlM_readBackMembers, readBack?]
      cases readBackMembers? depth members <;> simp [Except.toOption]

theorem finish_blank {α : Type} (a : α) {cs : List Char}
    (h : ∀ c ∈ cs, (Symbol.char c).isBlank = true) : finish (a, ofChars cs) = .ok a := by
  have hskip := skipBlank_append h []
  rw [List.append_nil] at hskip
  rw [finish, hskip]
  rfl

theorem ends_blank {cs : List Char} (h : ∀ c ∈ cs, (Symbol.char c).isBlank = true) :
    Ends (ofChars cs) := by
  have hends := ends_append h ends_nil
  rwa [List.append_nil] at hends

/-- A text in any layout, with blanks behind it. -/
theorem ofText_chars {l : Layout} (hl : l.IsBlank) (json : Json) {cs : List Char}
    (hcs : ∀ c ∈ cs, (Symbol.char c).isBlank = true) :
    (ofText (.ofList (l.chars 0 json ++ cs))).toOption = json.readBack? maxDepth := by
  have hsource : Source.ofString (.ofList (l.chars 0 json ++ cs)) = ofChars (l.chars 0 json ++ cs) :=
    congrArg ofChars String.toList_ofList
  have hbound : (l.chars 0 json).length < bound (ofChars (l.chars 0 json ++ cs)) := by
    simp only [bound, ofChars, List.length_map, List.length_append]
    omega
  have hread := readValue_chars hl json _ maxDepth 0 (ofChars cs) hbound (ends_blank hcs)
  rw [← ofChars_append] at hread
  unfold ofText ofSource
  rw [hsource, toOption_bind_read hread]
  simp only [finish_blank _ hcs]
  cases json.readBack? maxDepth <;> rfl

theorem ofText_compact (json : Json) :
    (ofText json.compact).toOption = json.readBack? maxDepth := by
  have hread := ofText_chars Layout.compact_isBlank json (List.forall_mem_nil _)
  rwa [List.append_nil, ← compactChars_eq] at hread

/-! ## What is read back -/

theorem readBackMembers?_keys {n : Nat} : ∀ {members ms : List (String × Json)},
    readBackMembers? n members = some ms → ms.map Prod.fst = members.map Prod.fst
  | [], ms, h => by cases h; rfl
  | (key, value) :: members, ms, h => by
    obtain ⟨value', hvalue, h⟩ := Option.bind_eq_some_iff.mp h
    obtain ⟨ms', hms, h⟩ := Option.bind_eq_some_iff.mp h
    cases h
    simp [readBackMembers?_keys hms]

theorem hasMember_readBack? {n : Nat} {members : List (String × Json)} {json : Json}
    (h : (object members).readBack? n = some json) (key : String) :
    json.hasMember key = (object members).hasMember key := by
  cases n with
  | zero => cases h
  | succ n =>
    obtain ⟨ms, hms, rfl⟩ := Option.map_eq_some_iff.mp h
    have hany : ∀ members : List (String × Json),
        members.any (·.1 == key) = (members.map Prod.fst).any (· == key) := fun members => by
      simp [List.any_map, Function.comp_def]
    simp only [hasMember]
    rw [hany, hany, readBackMembers?_keys hms]

theorem lt_depthItems {n : Nat} {items : List Json} (h : n < depthItems items) :
    ∃ item ∈ items, n < item.depth := by
  induction items with
  | nil => simp [depthItems] at h
  | cons item items ih =>
    have h : n < item.depth ∨ n < depthItems items := by
      rw [depthItems] at h
      omega
    rcases h with h | h
    · exact ⟨item, by simp, h⟩
    · obtain ⟨other, hother, hlt⟩ := ih h
      exact ⟨other, by simp [hother], hlt⟩

theorem lt_depthMembers {n : Nat} {members : List (String × Json)} (h : n < depthMembers members) :
    ∃ m ∈ members, n < m.2.depth := by
  induction members with
  | nil => simp [depthMembers] at h
  | cons m members ih =>
    obtain ⟨key, value⟩ := m
    have h : n < value.depth ∨ n < depthMembers members := by
      rw [depthMembers] at h
      omega
    rcases h with h | h
    · exact ⟨(key, value), by simp, h⟩
    · obtain ⟨other, hother, hlt⟩ := ih h
      exact ⟨other, by simp [hother], hlt⟩

theorem readBackItems?_none {n : Nat} {items : List Json} {item : Json} (hitem : item ∈ items)
    (h : item.readBack? n = none) : readBackItems? n items = none := by
  induction items with
  | nil => simp at hitem
  | cons first items ih =>
    rw [readBackItems?]
    rcases List.mem_cons.mp hitem with rfl | hitem
    · rw [h]
      rfl
    · rw [ih hitem]
      cases first.readBack? n <;> rfl

theorem readBackMembers?_none {n : Nat} {members : List (String × Json)} {m : String × Json}
    (hm : m ∈ members) (h : m.2.readBack? n = none) : readBackMembers? n members = none := by
  induction members with
  | nil => simp at hm
  | cons first members ih =>
    obtain ⟨key, value⟩ := first
    rw [readBackMembers?]
    rcases List.mem_cons.mp hm with rfl | hm
    · rw [h]
      rfl
    · rw [ih hm]
      cases value.readBack? n <;> rfl

/-- What nests too deep is not read. -/
theorem readBack?_deep (json : Json) : ∀ n, n < json.depth → json.readBack? n = none := by
  induction json using Json.induct with
  | null | bool | number | string => intro n hn; simp [depth] at hn
  | array items ih =>
    intro n hn
    cases n with
    | zero => rfl
    | succ n =>
      obtain ⟨item, hitem, hlt⟩ := lt_depthItems (by simpa [depth] using hn)
      rw [readBack?, readBackItems?_none hitem (ih item hitem n hlt)]
      rfl
  | object members ih =>
    intro n hn
    cases n with
    | zero => rfl
    | succ n =>
      obtain ⟨m, hm, hlt⟩ := lt_depthMembers (by simpa [depth] using hn)
      rw [readBack?, readBackMembers?_none hm (ih m hm n hlt)]
      rfl

theorem readBackMembers?_deep {n : Nat} {members : List (String × Json)}
    (h : n < depthMembers members) : readBackMembers? n members = none := by
  obtain ⟨m, hm, hlt⟩ := lt_depthMembers h
  exact readBackMembers?_none hm (m.2.readBack?_deep n hlt)

end Json

end SceneScript
