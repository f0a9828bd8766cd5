import SceneScript.Editor.Drag
import SceneScript.Proofs.Script.Decoding

/-! Written scripts load again. A component is read where its text stands: its category is decided
first and what is beside it is kept, then decoded. What comes of it depends on two things only,
how deep the text nests and what its numbers reread as. -/

namespace SceneScript

open Json (readBackItems? readBackMembers? depthItems depthMembers ReadsMember)
open Source

/-- What a component's text loads as. -/
def Component.loaded? (c : Component) : Option Component :=
  if c.toJson.depth ≤ Json.maxDepth then c.reread? else none

/-- What a document loads as. -/
def Act.loaded? (a : Act) : Option Act :=
  if a.toJson.depth ≤ Json.maxDepth then a.reread? else none

/-! ## The root of a component -/

namespace Component

/-- What the root takes from a member that was written. -/
def rootStep (root : Root) (m : String × Json) : Option Root :=
  if m.1 = "category" then
    match root.category, m.2 with
    | none, .string name =>
      (findVariant tags name).toOption.map fun c => { root with category := some c }
    | _, _ => none
  else
    (m.2.readBack? (Json.maxDepth - 1)).map fun json =>
      { root with rest := (m.1, json) :: root.rest }

theorem category_not_mem : ∀ c : Component, "category" ∉ c.members.map Prod.fst
  | .expr e => by cases e <;> simp [members, Expr.members, typed]
  | .statement s => by cases s <;> simp [members, Statement.members, typed]
  | .scene s => by cases s <;> simp [members, Scene.members, typed]
  | .sequence s => by simp [members, CommandSequence.members]
  | .act a => by simp [members, Act.members]

theorem findVariant_tag (c : Category) : findVariant tags (tag c) = .ok c := by
  cases c with
  | expr f => cases f <;> rfl
  | _ => rfl

/-- A root member that is the tag, or stands beside it. -/
theorem readsRootMember {l : Layout} (hl : l.IsBlank) {n d : Nat} {m : String × Json}
    (hn : (l.chars (d + 1) m.2).length < n) (htag : m.1 = "category" → ∃ name, m.2 = .string name) :
    ReadsMember l d (readRootMember n) rootStep m := by
  intro root rest hrest
  obtain ⟨key, value⟩ := m
  unfold readRootMember rootStep
  by_cases hkey : key = "category"
  · obtain ⟨name, rfl⟩ := htag hkey
    simp only [if_pos hkey]
    cases root.category with
    | some c => rfl
    | none =>
      rw [Layout.chars] at hn ⊢
      have hlength := Json.length_le_quoted name
      have htext := Json.readText_quoted hl.space name (n := n) (by omega) "variant identifier" rest
      rw [ofChars_cons, List.cons_append, Json.readColon_cons]
      simp only [readTag, bind, Except.bind, htext]
      cases findVariant tags name <;> rfl
  · simp only [if_neg hkey]
    have hvalue := Json.readColon_value hl
      (Json.readValue_chars hl value n (Json.maxDepth - 1) (d + 1) rest hn hrest)
    rw [← bind_assoc, toOption_bind_read hvalue]
    cases value.readBack? (Json.maxDepth - 1) <;> rfl

theorem foldlM_rootStep (root : Root) : ∀ members : List (String × Json),
    "category" ∉ members.map Prod.fst →
    members.foldlM rootStep root =
      (readBackMembers? (Json.maxDepth - 1) members).map fun ms =>
        { root with rest := ms.reverse ++ root.rest }
  | [], _ => rfl
  | (key, value) :: members, h => by
    simp only [List.map_cons, List.mem_cons, not_or] at h
    have htail := fun root => foldlM_rootStep root members h.2
    rw [List.foldlM_cons, readBackMembers?]
    simp only [rootStep, if_neg (Ne.symm h.1), htail]
    cases value.readBack? (Json.maxDepth - 1) with
    | none => rfl
    | some json => cases readBackMembers? (Json.maxDepth - 1) members <;> simp

theorem readRoot_text (c : Component) {cs : List Char} (hcs : cs = c.toJson.compactChars) {n : Nat}
    (hn : cs.length < n) :
    (readRoot n (ofChars cs)).toOption =
      (readBackMembers? (Json.maxDepth - 1) c.members).map fun ms =>
        ((c.category, .members ms), []) := by
  have hopen : (Symbol.char '\x7b').isBlank = false := rfl
  have hbody := Json.length_objectBody Layout.compact 0
    (("category", .string (tag c.category)) :: c.members)
  rw [hcs, compactChars_eq 0, toJson, Layout.chars] at hn
  simp only [List.length_cons] at hn hbody
  obtain ⟨hlength, hmembers⟩ := hbody
  have htag : ∀ m ∈ ("category", .string (tag c.category)) :: c.members,
      m.1 = "category" → ∃ name, m.2 = .string name := by
    intro m hm hkey
    rcases List.mem_cons.mp hm with rfl | hm
    · exact ⟨tag c.category, rfl⟩
    · exact absurd (List.mem_map_of_mem (f := Prod.fst) hm) (hkey ▸ c.category_not_mem)
  have hreads : ∀ m ∈ ("category", .string (tag c.category)) :: c.members,
      ReadsMember .compact 0 (readRootMember n) rootStep m := fun m hm =>
    readsRootMember Layout.compact_isBlank (by have := (hmembers m hm).2; omega) (htag m hm)
  have hfold := Json.foldMembers_objectBody Layout.compact_isBlank 0 n _ hreads
    (fun m hm => by have := (hmembers m hm).1; omega) n (by simp only [List.length_cons]; omega)
    ⟨none, []⟩ []
  rw [List.foldlM_cons] at hfold
  simp only [rootStep, if_true, findVariant_tag, Except.toOption, Option.map_some, bind,
    Option.bind, foldlM_rootStep _ _ c.category_not_mem, List.append_nil] at hfold
  rw [hcs, compactChars_eq 0, toJson, Layout.chars, ofChars_cons]
  unfold readRoot
  rw [Json.skipBlank_cons hopen]
  refine (toOption_bind_read hfold _).trans ?_
  cases readBackMembers? (Json.maxDepth - 1) c.members with
  | none => rfl
  | some ms => simp [Except.toOption]

theorem depth_toJson (c : Component) : c.toJson.depth = depthMembers c.members + 1 := by
  simp [toJson, Json.depth, depthMembers]

theorem ofString_text (c : Component) : Source.ofString c.text = ofChars c.toJson.compactChars := by
  simp [Source.ofString, text, Json.compact]

theorem readBack?_toJson (c : Component) :
    c.toJson.readBack? Json.maxDepth =
      (readBackMembers? (Json.maxDepth - 1) c.members).map fun ms =>
        .object (("category", .string (tag c.category)) :: ms) := by
  change ((readBackMembers? (Json.maxDepth - 1) c.members).bind fun ms => some _).map _ = _
  cases readBackMembers? (Json.maxDepth - 1) c.members <;> rfl

/-- What is kept beside the tag decodes to the component, or nests too deep. -/
theorem recovers_or_deep (c : Component) :
    ((readBackMembers? (Json.maxDepth - 1) c.members).bind fun ms =>
      (decodeBody c.category (.members ms)).toOption) = c.loaded? := by
  rw [loaded?, depth_toJson]
  by_cases h : depthMembers c.members + 1 ≤ Json.maxDepth
  · rw [if_pos h, c.recovers h]
  · have hmax : Json.maxDepth = 127 := rfl
    rw [if_neg h, Json.readBackMembers?_deep (by omega)]
    rfl

theorem ofSource_text (c : Component) :
    (ofSource (.ofString c.text)).toOption = c.loaded? := by
  rw [← recovers_or_deep, ofString_text]
  unfold ofSource
  rw [toOption_bind, readRoot_text c rfl (by simp [Json.bound])]
  cases readBackMembers? (Json.maxDepth - 1) c.members with
  | none => rfl
  | some ms =>
    simp only [Option.map_some, Option.bind_some]
    cases decodeBody c.category (.members ms) <;> rfl

end Component

theorem fromUTF8?_toUTF8 (s : String) : String.fromUTF8? s.toUTF8 = some s := by
  simp only [String.fromUTF8?]
  exact dif_pos s.isValidUTF8

theorem Payload.decode_encode (c : Component) :
    (encode c).decode.toOption = c.loaded? := by
  rw [← c.ofSource_text]
  simp only [encode, decode, isKnown, beq_self_eq_true, if_true, ofBytes, fromUTF8?_toUTF8]
  cases Component.ofSource (ofString c.text) <;> rfl

/-! ## Documents -/

namespace Act

/-- A bare act in any layout, with blanks behind it. -/
theorem ofText_bare {l : Layout} (hl : l.IsBlank) (a : Act) {cs : List Char}
    (hcs : ∀ c ∈ cs, (Symbol.char c).isBlank = true) :
    (ofText (.ofList (l.chars 0 a.toJson ++ cs))).toOption = a.loaded? := by
  have hread := Json.ofText_chars hl a.toJson hcs
  have hdecode : ((a.toJson.readBack? Json.maxDepth).bind fun json => (ofBare json).toOption) =
      a.loaded? := by
    unfold loaded?
    by_cases h : a.toJson.depth ≤ Json.maxDepth
    · rw [if_pos h, a.recovers_bare h (Nat.le_refl _)]
    · rw [if_neg h, Json.readBack?_deep _ _ (Nat.lt_of_not_le h)]
      rfl
  rw [← hdecode, ← hread]
  unfold ofText
  cases hroot : Json.ofText (.ofList (l.chars 0 a.toJson ++ cs)) with
  | error e => rfl
  | ok root =>
    rw [hroot] at hread
    have hbare : root.hasMember "category" = false := by
      rw [Json.hasMember_readBack? hread.symm]
      rfl
    simp only [mapError_ok, bind, Except.bind, hbare, Bool.false_eq_true, if_false]
    simp only [Except.toOption, Option.bind_some]
    cases ofBare root <;> rfl

theorem depth_component (a : Act) : (Component.act a).toJson.depth = a.toJson.depth := by
  rw [Component.depth_toJson, toJson, Json.depth]
  rfl

theorem loaded?_component (a : Act) : (Component.act a).loaded? = a.loaded?.map .act := by
  unfold Component.loaded? loaded?
  rw [depth_component]
  by_cases h : a.toJson.depth ≤ Json.maxDepth
  · rw [if_pos h, if_pos h, Option.map_eq_bind]
    rfl
  · rw [if_neg h, if_neg h]
    rfl

/-- An act as a component. -/
theorem ofText_component (a : Act) : (ofText (Component.act a).text).toOption = a.loaded? := by
  have hread := Json.ofText_compact (Component.act a).toJson
  have hload := (Component.act a).ofSource_text
  have hrest := (Component.act a).recovers_or_deep
  rw [loaded?_component] at hload hrest
  generalize a.loaded? = loaded at hload hrest ⊢
  unfold ofText
  change ((Json.ofText (Component.act a).toJson.compact).mapError _ >>= _).toOption = _
  cases hroot : Json.ofText (Component.act a).toJson.compact with
  | error e =>
    -- a text that is no value at all is no component either
    have hbroken : readBackMembers? (Json.maxDepth - 1) (Component.act a).members = none := by
      rw [hroot, Component.readBack?_toJson] at hread
      exact Option.map_eq_none_iff.mp hread.symm
    rw [hbroken] at hrest
    cases loaded with
    | none => rfl
    | some a => cases hrest
  | ok root =>
    rw [hroot] at hread
    have htagged : root.hasMember "category" = true := by
      rw [Json.hasMember_readBack? hread.symm]
      rfl
    simp only [mapError_ok, bind, Except.bind, htagged, if_true, Component.ofText]
    cases hc : Component.ofSource (ofString (Component.act a).text) with
    | error e =>
      rw [hc] at hload
      cases loaded with
      | none => rfl
      | some a => cases hload
    | ok c =>
      rw [hc] at hload
      cases loaded with
      | none => cases hload
      | some a => cases hload; rfl

theorem ofText_pretty (a : Act) : (ofText a.toJson.pretty).toOption = a.loaded? := by
  have hload := a.ofText_bare Layout.pretty_isBlank (List.forall_mem_nil _)
  rwa [List.append_nil, ← prettyChars_eq] at hload

end Act

/-! ## What loads as itself -/

theorem Component.loaded?_eq_self (c : Component) :
    c.loaded? = some c ↔ c.toJson.depth ≤ 127 ∧ ∀ x ∈ c.literals, x.reread? = some x := by
  unfold loaded?
  by_cases h : c.toJson.depth ≤ Json.maxDepth
  · rw [if_pos h, c.reread?_eq_self]
    exact ⟨fun hx => ⟨h, hx⟩, And.right⟩
  · rw [if_neg h]
    exact ⟨nofun, fun hself => absurd hself.1 h⟩

theorem Act.loaded?_eq_self (a : Act) :
    a.loaded? = some a ↔ a.toJson.depth ≤ 127 ∧ ∀ x ∈ a.literals, x.reread? = some x := by
  have hcomponent := (Component.act a).loaded?_eq_self
  rw [loaded?_component, depth_component] at hcomponent
  refine Iff.trans ?_ hcomponent
  constructor
  · intro h
    rw [h]
    rfl
  · intro h
    obtain ⟨b, hb, hab⟩ := Option.map_eq_some_iff.mp h
    cases hab
    exact hb

theorem Act.loaded?_deep {a : Act} (h : 127 < a.toJson.depth) : a.loaded? = none :=
  if_neg (Nat.not_le_of_lt h)

/-- What the reader takes back: every number has a text, and nothing nests too deep. -/
structure Component.IsWritable (c : Component) : Prop where
  finite : ∀ x ∈ c.literals, x.isFinite = true
  depth : c.toJson.depth ≤ 127

namespace Component

theorem loaded?_writable {c : Component} (h : ∀ x ∈ c.literals, x.isFinite → x.reread? = some x)
    (hc : c.IsWritable) : c.loaded? = some c :=
  c.loaded?_eq_self.mpr ⟨hc.depth, fun x hx => h x hx (hc.finite x hx)⟩

theorem loaded?_not_writable {c : Component} (hc : ¬c.IsWritable) : c.loaded? = none := by
  unfold loaded?
  by_cases hdepth : c.toJson.depth ≤ Json.maxDepth
  · have hx : ∃ x ∈ c.literals, x.isFinite = false := by
      refine Classical.byContradiction fun hall => hc ⟨fun x hx => ?_, hdepth⟩
      cases hfinite : x.isFinite with
      | true => rfl
      | false => exact absurd ⟨x, hx, hfinite⟩ hall
    obtain ⟨x, hx, hfinite⟩ := hx
    rw [if_pos hdepth, reread?_none hx (Binary64.reread?_infinite hfinite)]
  · rw [if_neg hdepth]

end Component

/-- A component whose finite numbers survive on paper loads again as itself in every way it can be
written, if it can be written at all; if it cannot, no way loads. -/
theorem Component.loads_again (c : Component)
    (h : ∀ x ∈ c.literals, x.isFinite → x.reread? = some x) :
    (c.IsWritable →
      ofText c.text = .ok c ∧ (Payload.encode c).decode = .ok c ∧
        ∀ a, c = .act a → Act.ofText a.toJson.pretty = .ok a ∧ Act.ofText c.text = .ok a) ∧
    (¬c.IsWritable →
      (∃ e, ofText c.text = .error e) ∧ (∃ e, (Payload.encode c).decode = .error e) ∧
        ∀ a, c = .act a →
          (∃ e, Act.ofText a.toJson.pretty = .error e) ∧ ∃ e, Act.ofText c.text = .error e) := by
  constructor
  · intro hc
    have hloaded := loaded?_writable h hc
    refine ⟨eq_ok_of_toOption ((ofSource_text c).trans hloaded),
      eq_ok_of_toOption ((Payload.decode_encode c).trans hloaded), ?_⟩
    rintro a rfl
    rw [Act.loaded?_component] at hloaded
    obtain ⟨b, hb, hab⟩ := Option.map_eq_some_iff.mp hloaded
    cases hab
    exact ⟨eq_ok_of_toOption (a.ofText_pretty.trans hb),
      eq_ok_of_toOption (a.ofText_component.trans hb)⟩
  · intro hc
    have hloaded := loaded?_not_writable hc
    refine ⟨eq_error_of_toOption ((ofSource_text c).trans hloaded),
      eq_error_of_toOption ((Payload.decode_encode c).trans hloaded), ?_⟩
    rintro a rfl
    rw [Act.loaded?_component] at hloaded
    have ha := Option.map_eq_none_iff.mp hloaded
    exact ⟨eq_error_of_toOption (a.ofText_pretty.trans ha),
      eq_error_of_toOption (a.ofText_component.trans ha)⟩

/-- An act with a number, a string of characters that are escaped, and a gap. -/
def sampleAct : Act :=
  ⟨[.text ⟨"a \"b\" \\ \n\x01", "", .number (.ofInt 5), ⟨[.set "score" .gap]⟩, ⟨[]⟩, .text "c"⟩]⟩

theorem sampleAct_loads_again :
    (∀ x ∈ (Component.act sampleAct).literals, x.isFinite → x.reread? = some x) ∧
      Component.ofText (Component.act sampleAct).text = .ok (.act sampleAct) ∧
      (Payload.encode (.act sampleAct)).decode = .ok (.act sampleAct) ∧
      Act.ofText sampleAct.toJson.pretty = .ok sampleAct ∧
      Act.ofText (Component.act sampleAct).text = .ok sampleAct := by
  have hreread : (Binary64.ofInt 5).reread? = some (.ofInt 5) := by decide +kernel
  have hliterals : ∀ x ∈ (Component.act sampleAct).literals, x = .ofInt 5 := by
    simp [Component.literals, Act.literals, sampleAct, Scene.literals, Expr.literals,
      CommandSequence.literals, Statement.literals]
  have hwritable : (Component.act sampleAct).IsWritable := by
    refine ⟨fun x hx => ?_, by decide +kernel⟩
    rw [hliterals x hx]
    decide +kernel
  have h : ∀ x ∈ (Component.act sampleAct).literals, x.isFinite → x.reread? = some x := by
    intro x hx _
    rw [hliterals x hx, hreread]
  obtain ⟨htext, hpayload, hact⟩ := (Component.loads_again (.act sampleAct) h).1 hwritable
  obtain ⟨hpretty, hcomponent⟩ := hact sampleAct rfl
  exact ⟨h, htext, hpayload, hpretty, hcomponent⟩

end SceneScript
