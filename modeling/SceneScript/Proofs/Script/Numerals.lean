import SceneScript.Proofs.Json.Numerals
import SceneScript.Proofs.Script.DocumentShapes

/-! Where the numbers of a script come from. A script that was loaded has no numbers but those of
the value it was spelled by, and it nests no deeper. These are finite, so that it is written
without a gap, and equals itself. -/

namespace SceneScript

/-! ## Texts of components -/

namespace Component

variable {n : Nat} {src rest : Source}

theorem readValue_of_readTag {c : Category} (h : readTag n src = .ok (c, rest)) (depth : Nat) :
    ∃ json, Json.readValue n depth src = .ok (json, rest) := by
  obtain ⟨⟨name, next⟩, hname, h⟩ := bind_eq_ok h
  obtain ⟨c', -, h⟩ := bind_eq_ok h
  cases h
  exact Json.readValue_of_readText hname depth

theorem readValue_of_readRootMember {root root' : Root} {key : String} {colon : Source}
    (h : readRootMember n root key colon = .ok (root', rest)) :
    ∃ value json, Json.readColon colon = .ok value ∧
      Json.readValue n (Json.maxDepth - 1) value = .ok (json, rest) := by
  unfold readRootMember at h
  split at h
  · split at h
    · cases h
    · obtain ⟨value, hcolon, h⟩ := bind_eq_ok h
      obtain ⟨⟨c, next⟩, htag, h⟩ := bind_eq_ok h
      cases h
      obtain ⟨json, hread⟩ := readValue_of_readTag htag (Json.maxDepth - 1)
      exact ⟨value, json, hcolon, hread⟩
  · obtain ⟨value, hcolon, h⟩ := bind_eq_ok h
    obtain ⟨⟨json, next⟩, hread, h⟩ := bind_eq_ok h
    cases h
    exact ⟨value, json, hcolon, hread⟩

theorem readValue_of_readRootItem {root root' : Option Category × List Json}
    (h : readRootItem n root src = .ok (root', rest)) :
    ∃ json, Json.readValue n (Json.maxDepth - 1) src = .ok (json, rest) := by
  unfold readRootItem at h
  split at h
  · obtain ⟨⟨c, next⟩, htag, h⟩ := bind_eq_ok h
    cases h
    exact readValue_of_readTag htag _
  · obtain ⟨⟨json, next⟩, hread, h⟩ := bind_eq_ok h
    cases h
    exact ⟨json, hread⟩

theorem readValue_of_readRoot {r : Category × Body} (h : readRoot n src = .ok (r, rest)) :
    ∃ json, Json.readValue n Json.maxDepth src = .ok (json, rest) := by
  unfold readRoot at h
  split at h
  · rename_i behind hsrc
    obtain ⟨⟨root, next⟩, hfold, h⟩ := bind_eq_ok h
    have hnext : next = rest := by
      dsimp only at h
      split at h
      · cases h
        rfl
      · cases h
    obtain ⟨ms, hlength, hms⟩ := Json.membersRead_of readValue_of_readRootMember hfold
    exact ⟨_, hnext ▸ Json.readValue_of_members hsrc hlength hms⟩
  · rename_i behind hsrc
    obtain ⟨⟨root, next⟩, hfold, h⟩ := bind_eq_ok h
    have hnext : next = rest := by
      dsimp only at h
      split at h
      · cases h
        rfl
      · cases h
    obtain ⟨items, hlength, hitems⟩ := Json.itemsRead_of readValue_of_readRootItem hfold
    exact ⟨_, hnext ▸ Json.readValue_of_items hsrc hlength hitems⟩
  · obtain ⟨found, -, h⟩ := bind_eq_ok h
    cases h

/-- What loads as a component is a document value, which spells it. -/
theorem exists_spelling {c : Component} (h : ofSource src = .ok c) :
    ∃ json rest, Json.readValue (Json.bound src) Json.maxDepth src = .ok (json, rest) ∧
      c.Spelled json := by
  obtain ⟨⟨⟨category, body⟩, rest⟩, hroot, h⟩ := bind_eq_ok h
  obtain ⟨c', hdecode, hfinish⟩ := bind_eq_ok h
  obtain ⟨json, hread⟩ := readValue_of_readRoot hroot
  have hsame : c' = c := by
    simp only [finish] at hfinish
    split at hfinish
    · exact Except.ok.inj hfinish
    · cases hfinish
  have hparts := readRoot_read hread
  rw [hroot] at hparts
  obtain ⟨parts, hbind, heq⟩ := Option.map_eq_some_iff.mp hparts.symm
  cases heq
  obtain ⟨whole, hbody, hsplit⟩ := Option.bind_eq_some_iff.mp hbind
  obtain rfl := eq_toJson_of_body? hbody
  refine ⟨whole.toJson, rest, hread, (split_decodeBody_iff (Json.depth_read hread) c).mp ?_⟩
  exact ⟨category, body, eq_ok_of_toOption hsplit, hsame ▸ hdecode⟩

end Component

/-! ## Spelled scripts -/

/-- A value that accounts for the numbers, and that nests no less deep. -/
structure Json.Covers (json : Json) (xs : List Binary64) (depth : Nat) : Prop where
  literals : ∀ x ∈ xs, ∃ n ∈ json.numerals, n.toBinary64 = x
  depth : depth ≤ json.depth

theorem exists_of_forall₂ {α β : Type} {R : α → β → Prop} {as : List α} {bs : List β}
    (h : List.Forall₂ R as bs) : ∀ a ∈ as, ∃ b ∈ bs, R a b := by
  induction h with
  | nil => exact nofun
  | cons hab _ ih =>
    refine List.forall_mem_cons.mpr ⟨⟨_, List.mem_cons_self, hab⟩, fun a ha => ?_⟩
    obtain ⟨b, hb, hR⟩ := ih a ha
    exact ⟨b, List.mem_cons_of_mem _ hb, hR⟩

namespace Json

variable {json inner : Json} {xs ys : List Binary64} {d e : Nat} {parts : List Part}

theorem within_array {js : List Json} (h : inner ∈ js) :
    inner.numerals ⊆ (Json.array js).numerals ∧ inner.depth < (Json.array js).depth := by
  refine ⟨fun n hn => ?_, Nat.lt_succ_of_le (depth_le_of_mem h)⟩
  rw [numerals, numeralsItems_eq]
  exact List.mem_flatMap.mpr ⟨inner, h, hn⟩

theorem within_object {m : String × Json} {ms : List (String × Json)} (h : m ∈ ms) :
    m.2.numerals ⊆ (Json.object ms).numerals ∧ m.2.depth < (Json.object ms).depth := by
  refine ⟨fun n hn => ?_, Nat.lt_succ_of_le (depth_le_of_member h)⟩
  rw [numerals, numeralsMembers_eq]
  exact List.mem_flatMap.mpr ⟨m, h, hn⟩

/-- What stands for a part stands inside the whole. -/
theorem Writes.exists_part {part : Part} (h : Writes parts json) (hpart : part ∈ parts) :
    ∃ inner, part.2 inner ∧ inner.numerals ⊆ json.numerals ∧ inner.depth < json.depth := by
  cases json with
  | object ms =>
    obtain ⟨inner, hfilter, hinner⟩ := h part hpart
    have hmem : (part.1, inner) ∈ ms :=
      List.mem_of_mem_filter (hfilter ▸ List.mem_singleton_self _)
    exact ⟨inner, hinner, within_object hmem⟩
  | array js =>
    obtain ⟨inner, hmem, hinner⟩ := exists_of_forall₂ h part hpart
    exact ⟨inner, hinner, within_array hmem⟩
  | _ => exact h.elim

theorem Lists.exists_item {α : Type} {spelled : α → Json → Prop} {as : List α} {a : α}
    (h : Lists spelled as json) (ha : a ∈ as) :
    ∃ inner, spelled a inner ∧ inner.numerals ⊆ json.numerals ∧ inner.depth < json.depth := by
  cases json with
  | array js =>
    obtain ⟨inner, hmem, hinner⟩ := exists_of_forall₂ h a ha
    exact ⟨inner, hinner, within_array hmem⟩
  | _ => exact h.elim

theorem Covers.within (h : inner.Covers xs d) (hnumerals : inner.numerals ⊆ json.numerals)
    (hdepth : inner.depth < json.depth) : json.Covers xs (d + 1) where
  literals x hx := by
    obtain ⟨n, hn, heq⟩ := h.literals x hx
    exact ⟨n, hnumerals hn, heq⟩
  depth := Nat.lt_of_le_of_lt h.depth hdepth

theorem Covers.append (h : json.Covers xs d) (h' : json.Covers ys e) :
    json.Covers (xs ++ ys) (max d e) where
  literals := List.forall_mem_append.mpr ⟨h.literals, h'.literals⟩
  depth := Nat.max_le.mpr ⟨h.depth, h'.depth⟩

theorem Covers.of_le (h : json.Covers xs d) (hle : e ≤ d) : json.Covers xs e :=
  ⟨h.literals, Nat.le_trans hle h.depth⟩

/-- What is covered by whatever stands for a part is covered by the whole, one level further
down. -/
theorem Writes.covers (name : String) {spelled : Json → Prop} (h : Writes parts json)
    (hpart : (name, spelled) ∈ parts) (hcovers : ∀ inner, spelled inner → inner.Covers xs d) :
    json.Covers xs (d + 1) := by
  obtain ⟨inner, hinner, hnumerals, hdepth⟩ := h.exists_part hpart
  exact (hcovers inner hinner).within hnumerals hdepth

theorem Lists.covers {α : Type} {partsOf : α → List Part} {literals : α → List Binary64}
    {toJson : α → Json} {as : List α}
    (hitem : ∀ a json, Writes (partsOf a) json → json.Covers (literals a) (toJson a).depth)
    (h : Lists (fun a => Writes (partsOf a)) as json) :
    json.Covers (as.flatMap literals) (Json.array (as.map toJson)).depth := by
  have hcovers : ∀ a ∈ as, json.Covers (literals a) ((toJson a).depth + 1) := by
    intro a ha
    obtain ⟨inner, hinner, hnumerals, hdepth⟩ := h.exists_item ha
    exact (hitem a inner hinner).within hnumerals hdepth
  have hpos : 0 < json.depth := by
    cases json with
    | array js => exact Nat.succ_pos _
    | _ => exact h.elim
  have hdepth : ∀ as : List α, (∀ a ∈ as, json.Covers (literals a) ((toJson a).depth + 1)) →
      depthItems (as.map toJson) < json.depth := by
    intro as
    induction as with
    | nil => exact fun _ => hpos
    | cons a as ih =>
      intro hall
      obtain ⟨ha, has⟩ := List.forall_mem_cons.mp hall
      exact Nat.max_lt.mpr ⟨ha.depth, ih has⟩
  refine ⟨fun x hx => ?_, hdepth as hcovers⟩
  obtain ⟨a, ha, hx⟩ := List.mem_flatMap.mp hx
  exact (hcovers a ha).literals x hx

end Json

/-- By induction on the expression: its parts are spelled inside of it. -/
theorem Expr.covers {f : Family} (e : Expr f) : ∀ json, Json.Writes e.parts json →
    json.Covers e.literals e.toJson.depth := by
  have hflat : ∀ {parts : List Part} {json : Json}, Json.Writes parts json → parts ≠ [] →
      json.Covers [] 1 := by
    intro parts json h hne
    obtain ⟨part, hpart⟩ := List.exists_mem_of_ne_nil parts hne
    obtain ⟨inner, -, -, hdepth⟩ := h.exists_part hpart
    exact ⟨nofun, Nat.lt_of_le_of_lt (Nat.zero_le _) hdepth⟩
  induction e with
  | gap => exact fun json h => hflat h nofun
  | text s => exact fun json h => hflat h nofun
  | url s => exact fun json h => hflat h nofun
  | number x =>
    intro json h
    have hx : ∀ inner, x.Spelled inner → inner.Covers [x] 0 := by
      rintro inner ⟨n, rfl, hn⟩
      exact ⟨List.forall_mem_singleton.mpr ⟨n, List.mem_singleton_self n, hn⟩, Nat.zero_le _⟩
    exact h.covers "value" (by simp [parts]) hx
  | operation o a b iha ihb =>
    intro json h
    have ha := h.covers "op1" (by simp [parts]) iha
    have hb := h.covers "op2" (by simp [parts]) ihb
    refine (ha.append hb).of_le ?_
    simp only [toJson, members, typed, Json.depth, Json.depthMembers]
    omega
  | titleOf v ih | relatedTo v ih =>
    intro json h
    have hv := h.covers "video" (by simp [parts]) ih
    refine hv.of_le ?_
    simp only [toJson, members, typed, Json.depth, Json.depthMembers]
    omega
  | randomFrom c ih =>
    intro json h
    have hc := h.covers "video_collection" (by simp [parts]) ih
    refine hc.of_le ?_
    simp only [toJson, members, typed, Json.depth, Json.depthMembers]
    omega

theorem Statement.covers (s : Statement) (json : Json) (h : Json.Writes s.parts json) :
    json.Covers s.literals s.toJson.depth := by
  cases s with
  | get name =>
    obtain ⟨inner, -, -, hdepth⟩ := h.exists_part List.mem_cons_self
    exact ⟨nofun, Nat.lt_of_le_of_lt (Nat.zero_le _) hdepth⟩
  | set name value =>
    refine (h.covers "value" (by simp [parts]) value.covers).of_le ?_
    simp only [toJson, members, typed, Json.depth, Json.depthMembers]
    omega

theorem CommandSequence.covers (s : CommandSequence) (json : Json)
    (h : Json.Writes s.parts json) : json.Covers s.literals s.toJson.depth := by
  refine (h.covers "commands" (by simp [parts])
    fun inner => Json.Lists.covers Statement.covers).of_le ?_
  simp only [toJson, members, Json.depth, Json.depthMembers]
  omega

theorem Scene.covers (s : Scene) (json : Json) (h : Json.Writes s.parts json) :
    json.Covers s.literals s.toJson.depth := by
  cases s with
  | text s =>
    have hduration := h.covers "duration" (by simp [parts]) s.duration.covers
    have hpre := h.covers "pre_commands" (by simp [parts]) s.preCommands.covers
    have hpost := h.covers "post_commands" (by simp [parts]) s.postCommands.covers
    have htext := h.covers "text" (by simp [parts]) s.text.covers
    refine (((hduration.append hpre).append hpost).append htext).of_le ?_
    simp only [toJson, members, typed, Json.depth, Json.depthMembers]
    omega
  | video s =>
    have hduration := h.covers "duration" (by simp [parts]) s.duration.covers
    have hpre := h.covers "pre_commands" (by simp [parts]) s.preCommands.covers
    have hpost := h.covers "post_commands" (by simp [parts]) s.postCommands.covers
    have hoffset := h.covers "offset" (by simp [parts]) s.offset.covers
    have hsource := h.covers "source" (by simp [parts]) s.source.covers
    refine ((((hduration.append hpre).append hpost).append hoffset).append hsource).of_le ?_
    simp only [toJson, members, typed, Json.depth, Json.depthMembers]
    omega

theorem Act.covers (a : Act) (json : Json) (h : Json.Writes a.parts json) :
    json.Covers a.literals a.toJson.depth := by
  refine (h.covers "scenes" (by simp [parts])
    fun inner => Json.Lists.covers Scene.covers).of_le ?_
  simp only [toJson, members, Json.depth, Json.depthMembers]
  omega

/-- What stands behind the first part. -/
theorem Json.Writes.exists_tail {part : Part} {parts : List Part} {json : Json}
    (h : Writes (part :: parts) json) :
    ∃ behind, Writes parts behind ∧ behind.numerals ⊆ json.numerals ∧
      behind.depth ≤ json.depth := by
  cases json with
  | object ms => exact ⟨.object ms, fun p hp => h p (List.mem_cons_of_mem _ hp), fun _ => id, le_rfl⟩
  | array js =>
    obtain ⟨first, behind, -, hparts, rfl⟩ := List.forall₂_cons_left_iff.mp h
    exact ⟨.array behind, hparts, fun n hn => List.mem_append_right first.numerals hn,
      Nat.succ_le_succ (Nat.le_max_right ..)⟩
  | _ => exact h.elim

theorem Component.covers {c : Component} {json : Json} (h : c.Spelled json) :
    json.Covers c.literals c.toJson.depth := by
  obtain ⟨behind, hparts, hnumerals, hdepth⟩ := h.exists_tail
  have hbehind : behind.Covers c.literals (Json.object c.members).depth := by
    cases c with
    | expr e => exact e.covers behind hparts
    | statement s => exact s.covers behind hparts
    | scene s => exact s.covers behind hparts
    | sequence s => exact s.covers behind hparts
    | act a => exact a.covers behind hparts
  have htag : c.toJson.depth = (Json.object c.members).depth := by
    simp [toJson, Json.depth, Json.depthMembers]
  refine ⟨fun x hx => ?_, htag ▸ Nat.le_trans hbehind.depth hdepth⟩
  obtain ⟨n, hn, heq⟩ := hbehind.literals x hx
  exact ⟨n, hnumerals hn, heq⟩

/-! ## Scripts that were loaded -/

theorem Json.Covers.isFinite {json : Json} {xs : List Binary64} {d : Nat}
    (h : json.Covers xs d) (hfinite : json.Finite) : ∀ x ∈ xs, x.isFinite = true := by
  intro x hx
  obtain ⟨n, hn, rfl⟩ := h.literals x hx
  exact hfinite n hn

/-- A component that was loaded has finite numbers, and nests no deeper than the reader goes. -/
theorem Component.loaded_bounds {src : Source} {c : Component} (h : Component.ofSource src = .ok c) :
    (∀ x ∈ c.literals, x.isFinite = true) ∧ c.toJson.depth ≤ Json.maxDepth := by
  obtain ⟨json, rest, hread, hspelled⟩ := exists_spelling h
  have hcovers := covers hspelled
  exact ⟨hcovers.isFinite (Json.finite_read hread),
    Nat.le_trans hcovers.depth (Json.depth_read hread)⟩

theorem Act.writes_of_ofBare_items {js : List Json}
    (hdepth : (Json.array js).depth ≤ Json.maxDepth) {a : Act} (h : Act.ofBare (.array js) = .ok a) :
    Json.Writes a.parts (.array js) := by
  change Shape.actRecord.decodeWith .trailingCharacters Act.decodeBareField (.items js) = _ at h
  obtain ⟨r, rfl, hwrites⟩ := (Shape.actRecord.decodeWith_iff (by decide) (.items js) a).mp h
  cases hwrites with
  | cons htakes hnone =>
    rename_i json behind
    cases hnone
    have hjson : json.depth < Json.maxDepth :=
      Nat.lt_of_lt_of_le (Json.within_array List.mem_cons_self).2 hdepth
    exact .cons (scenes_of_bareField hjson htakes) .nil

/-- A document that was loaded has finite numbers, bare or not. -/
theorem Act.loaded_finite {s : String} {a : Act} (h : Act.ofText s = .ok a) :
    ∀ x ∈ a.literals, x.isFinite = true := by
  obtain ⟨json, hread, h⟩ := bind_eq_ok h
  have hread := mapError_eq_ok hread
  by_cases htagged : json.hasMember "category" = true
  · rw [if_pos htagged] at h
    obtain ⟨c, hload, h⟩ := bind_eq_ok h
    have hload := mapError_eq_ok hload
    cases c with
    | act a =>
      cases h
      exact (Component.loaded_bounds hload).1
    | _ => cases h
  · rw [if_neg htagged] at h
    have hbare := mapError_eq_ok h
    have hdepth := Json.depth_ofText hread
    have hcovers : json.Covers a.literals a.toJson.depth := by
      cases json with
      | object ms => exact a.covers _ (Act.writes_of_ofBare hdepth hbare)
      | array js => exact a.covers _ (Act.writes_of_ofBare_items hdepth hbare)
      | _ => cases hbare
    exact hcovers.isFinite (Json.finite_ofText hread)

/-! ## Scripts that are written -/

theorem Expr.numerals_members {f : Family} (e : Expr f) :
    Json.numeralsMembers e.members = e.literals.map .real := by
  induction e with
  | operation o a b iha ihb =>
    simp [members, typed, Json.numeralsMembers, Json.numerals, literals, iha, ihb]
  | titleOf v ih | relatedTo v ih =>
    simp [members, typed, Json.numeralsMembers, Json.numerals, literals, ih]
  | randomFrom c ih => simp [members, typed, Json.numeralsMembers, Json.numerals, literals, ih]
  | _ => rfl

@[simp]
theorem Expr.numerals_toJson {f : Family} (e : Expr f) :
    e.toJson.numerals = e.literals.map .real := e.numerals_members

theorem Json.numerals_map {α : Type} {toJson : α → Json} {literals : α → List Binary64}
    (h : ∀ a, (toJson a).numerals = (literals a).map .real) (as : List α) :
    (Json.array (as.map toJson)).numerals = (as.flatMap literals).map .real := by
  induction as with
  | nil => rfl
  | cons a as ih =>
    simp only [numerals, List.map_cons, numeralsItems, h] at ih ⊢
    rw [ih, List.flatMap_cons, List.map_append]

theorem Statement.numerals_toJson (s : Statement) :
    s.toJson.numerals = s.literals.map .real := by
  cases s <;> simp [toJson, members, typed, Json.numeralsMembers, Json.numerals, literals]

@[simp]
theorem CommandSequence.numerals_toJson (s : CommandSequence) :
    s.toJson.numerals = s.literals.map .real := by
  have hcommands := Json.numerals_map Statement.numerals_toJson s.commands
  simpa [toJson, members, Json.numeralsMembers, Json.numerals, literals] using hcommands

theorem Scene.numerals_toJson (s : Scene) : s.toJson.numerals = s.literals.map .real := by
  cases s <;> simp [toJson, members, typed, Json.numeralsMembers, Json.numerals, literals]

@[simp]
theorem Act.numerals_toJson (a : Act) : a.toJson.numerals = a.literals.map .real := by
  have hscenes := Json.numerals_map Scene.numerals_toJson a.scenes
  simpa [toJson, members, Json.numeralsMembers, Json.numerals, literals] using hscenes

/-- The numbers that are written are the numbers of the script, each in full. -/
@[simp]
theorem Component.numerals_toJson (c : Component) :
    c.toJson.numerals = c.literals.map .real := by
  have hinner : (Json.object c.members).numerals = c.literals.map .real := by
    cases c with
    | expr e => exact e.numerals_toJson
    | statement s => exact s.numerals_toJson
    | scene s => exact s.numerals_toJson
    | sequence s => exact s.numerals_toJson
    | act a => exact a.numerals_toJson
  simpa [toJson, Json.numerals, Json.numeralsMembers] using hinner

/-! ## Scripts that equal themselves -/

theorem Expr.agrees_self {f : Family} (e : Expr f) (h : ∀ x ∈ e.literals, x.isFinite = true) :
    e.agrees e = true := by
  induction e with
  | number x => exact Binary64.agrees_self (h x (List.mem_singleton_self x))
  | operation o a b iha ihb =>
    obtain ⟨ha, hb⟩ := List.forall_mem_append.mp h
    simp [agrees, iha ha, ihb hb]
  | titleOf v ih | relatedTo v ih => exact ih h
  | randomFrom c ih => exact ih h
  | gap | text s | url s => simp [agrees]

theorem listAgrees_self {α : Type} {agrees : α → α → Bool} {literals : α → List Binary64}
    (hself : ∀ a, (∀ x ∈ literals a, x.isFinite = true) → agrees a a = true) :
    ∀ as : List α, (∀ x ∈ as.flatMap literals, x.isFinite = true) →
      listAgrees agrees as as = true
  | [], _ => rfl
  | a :: as, h => by
    obtain ⟨ha, has⟩ := List.forall_mem_append.mp (List.flatMap_cons ▸ h)
    rw [listAgrees, hself a ha, listAgrees_self hself as has]
    rfl

theorem Statement.agrees_self (s : Statement) (h : ∀ x ∈ s.literals, x.isFinite = true) :
    s.agrees s = true := by
  cases s with
  | get name => simp [agrees]
  | set name value => simp [agrees, value.agrees_self h]

theorem CommandSequence.agrees_self (s : CommandSequence)
    (h : ∀ x ∈ s.literals, x.isFinite = true) : s.agrees s = true :=
  listAgrees_self Statement.agrees_self s.commands h

theorem Scene.agrees_self (s : Scene) (h : ∀ x ∈ s.literals, x.isFinite = true) :
    s.agrees s = true := by
  cases s with
  | text s =>
    simp only [literals, List.forall_mem_append] at h
    obtain ⟨⟨⟨hduration, hpre⟩, hpost⟩, htext⟩ := h
    simp [agrees, s.duration.agrees_self hduration, s.preCommands.agrees_self hpre,
      s.postCommands.agrees_self hpost, s.text.agrees_self htext]
  | video s =>
    simp only [literals, List.forall_mem_append] at h
    obtain ⟨⟨⟨⟨hduration, hpre⟩, hpost⟩, hoffset⟩, hsource⟩ := h
    simp [agrees, s.duration.agrees_self hduration, s.preCommands.agrees_self hpre,
      s.postCommands.agrees_self hpost, s.offset.agrees_self hoffset,
      s.source.agrees_self hsource]

/-- Only a value that is not a number differs from itself. -/
theorem Act.agrees_self (a : Act) (h : ∀ x ∈ a.literals, x.isFinite = true) :
    a.agrees a = true :=
  listAgrees_self Scene.agrees_self a.scenes h

end SceneScript
