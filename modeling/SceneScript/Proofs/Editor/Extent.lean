import SceneScript.Proofs.Editor.Drop

/-! The extent of an edited script: the numbers in it, and how deep its text nests. An edit adds to
neither more than comes with the component, whose text nests as deep at its place as it does on its
own. -/

namespace SceneScript

/-! ## How deep scripts nest -/

theorem Expr.depth_operation (o : Operator) (a b : Expr .number) :
    (operation o a b).toJson.depth = max a.toJson.depth b.toJson.depth + 1 := by
  simp only [toJson, members, typed, Json.depth, Json.depthMembers, Nat.zero_max, Nat.max_zero]

theorem Expr.depth_titleOf (v : Expr .video) : (titleOf v).toJson.depth = v.toJson.depth + 1 := by
  simp only [toJson, members, typed, Json.depth, Json.depthMembers, Nat.zero_max, Nat.max_zero]

theorem Expr.depth_randomFrom (c : Expr .collection) :
    (randomFrom c).toJson.depth = c.toJson.depth + 1 := by
  simp only [toJson, members, typed, Json.depth, Json.depthMembers, Nat.zero_max, Nat.max_zero]

theorem Expr.depth_relatedTo (v : Expr .video) :
    (relatedTo v).toJson.depth = v.toJson.depth + 1 := by
  simp only [toJson, members, typed, Json.depth, Json.depthMembers, Nat.zero_max, Nat.max_zero]

theorem Statement.depth_set (name : String) (value : Expr .number) :
    (set name value).toJson.depth = value.toJson.depth + 1 := by
  simp only [toJson, members, typed, Json.depth, Json.depthMembers, Nat.zero_max, Nat.max_zero]

theorem CommandSequence.depth_toJson (s : CommandSequence) :
    s.toJson.depth = (Json.array (s.commands.map Statement.toJson)).depth + 1 := by
  simp only [toJson, members, Json.depth, Json.depthMembers, Nat.max_zero]

theorem Scene.depth_text (s : TextScene) :
    (text s).toJson.depth = max s.duration.toJson.depth (max s.preCommands.toJson.depth
      (max s.postCommands.toJson.depth s.text.toJson.depth)) + 1 := by
  simp only [toJson, members, typed, Json.depth, Json.depthMembers, Nat.zero_max, Nat.max_zero]

theorem Scene.depth_video (s : VideoScene) :
    (video s).toJson.depth = max s.duration.toJson.depth (max s.preCommands.toJson.depth
      (max s.postCommands.toJson.depth (max s.offset.toJson.depth s.source.toJson.depth))) + 1 := by
  simp only [toJson, members, typed, Json.depth, Json.depthMembers, Nat.zero_max, Nat.max_zero]

theorem Act.depth_toJson (a : Act) :
    a.toJson.depth = (Json.array (a.scenes.map Scene.toJson)).depth + 1 := by
  simp only [toJson, members, Json.depth, Json.depthMembers, Nat.max_zero]

theorem depthItems_set (json : Json) : ∀ (items : List Json) (i : Nat),
    Json.depthItems (items.set i json) ≤ max json.depth (Json.depthItems items)
  | [], i => Nat.zero_le _
  | item :: items, 0 => by
    simp only [List.set, Json.depthItems]
    omega
  | item :: items, i + 1 => by
    have htail := depthItems_set json items i
    simp only [List.set, Json.depthItems]
    omega

/-- How deep the text of what stands at a site nests. -/
def Site.depth : (s : Site) → s.Model → Nat
  | slot _, e => e.toJson.depth
  | node _, e => e.toJson.depth
  | statement, s => s.toJson.depth
  | commands, ss => (Json.array (ss.map Statement.toJson)).depth
  | sequence, s => s.toJson.depth
  | scene, s => s.toJson.depth
  | scenes, ss => (Json.array (ss.map Scene.toJson)).depth
  | act, a => a.toJson.depth

/-- How many levels deeper the text of a part stands than that of the whole. A slot is written as
its occupant. -/
def Step.levels {a b : Site} : Step a b → Nat
  | occupant => 0
  | _ => 1

namespace Step

theorem depth_model? {a b : Site} {s : Step a b} {m : a.Model} {part : b.Model}
    (h : s.model? m = some part) : b.depth part + s.levels ≤ a.depth m := by
  cases s with
  | occupant =>
    obtain ⟨-, h⟩ := Option.ite_none_left_eq_some.mp h
    cases h
    exact Nat.le_refl _
  | commands =>
    cases h
    exact Nat.le_of_eq m.depth_toJson.symm
  | scenes =>
    cases h
    exact Nat.le_of_eq m.depth_toJson.symm
  | command i | scene i =>
    exact Nat.succ_le_succ (depth_le_of_mem (List.mem_map_of_mem (List.mem_of_getElem? h)))
  | op1 | op2 =>
    cases m <;> cases h
    simp only [levels, Site.depth, Expr.depth_operation]
    omega
  | titleVideo | collection | relatedVideo =>
    cases m <;> cases h
    simp [levels, Site.depth, Expr.depth_titleOf, Expr.depth_randomFrom, Expr.depth_relatedTo]
  | value =>
    cases m <;> cases h
    simp [levels, Site.depth, Statement.depth_set]
  | preCommands | postCommands | duration | text | source | offset =>
    cases m <;> cases h <;>
      simp only [levels, Site.depth, Scene.depth_text, Scene.depth_video, Scene.preCommands,
        Scene.postCommands, Scene.duration] <;> omega

theorem depth_putModel {a b : Site} {s : Step a b} {q : b.Model} {m : a.Model} {k : Nat}
    (hm : a.depth m ≤ k) (hq : b.depth q + s.levels ≤ k) : a.depth (s.putModel q m) ≤ k := by
  cases s with
  | occupant => exact hq
  | commands => exact Nat.le_trans (Nat.le_of_eq (CommandSequence.depth_toJson ⟨q⟩)) hq
  | scenes => exact Nat.le_trans (Nat.le_of_eq (Act.depth_toJson ⟨q⟩)) hq
  | command i =>
    have hset := depthItems_set (Statement.toJson q) (m.map Statement.toJson) i
    simp only [putModel, levels, Site.depth, Json.depth, List.map_set] at hm hq ⊢
    omega
  | scene i =>
    have hset := depthItems_set (Scene.toJson q) (m.map Scene.toJson) i
    simp only [putModel, levels, Site.depth, Json.depth, List.map_set] at hm hq ⊢
    omega
  | titleVideo =>
    cases m with
    | titleOf v => exact Nat.le_trans (Nat.le_of_eq (Expr.depth_titleOf q)) hq
    | _ => exact hm
  | collection =>
    cases m with
    | randomFrom c => exact Nat.le_trans (Nat.le_of_eq (Expr.depth_randomFrom q)) hq
    | _ => exact hm
  | relatedVideo =>
    cases m with
    | relatedTo v => exact Nat.le_trans (Nat.le_of_eq (Expr.depth_relatedTo q)) hq
    | _ => exact hm
  | value =>
    cases m with
    | get name => exact hm
    | set name v => exact Nat.le_trans (Nat.le_of_eq (Statement.depth_set name q)) hq
  | op1 | op2 =>
    cases m with
    | operation o a b =>
      simp only [putModel, levels, Site.depth, Expr.depth_operation, Nat.succ_le_iff,
        Nat.max_lt] at hm hq ⊢
      exact ⟨by omega, by omega⟩
    | _ => exact hm
  | preCommands | postCommands | duration | text | source | offset =>
    cases m <;>
      simp only [putModel, levels, Site.depth, Scene.depth_text, Scene.depth_video,
        Nat.succ_le_iff, Nat.max_lt] at hm hq ⊢ <;> omega

end Step

/-- How many levels deeper than the whole what a path leads to stands. -/
def Path.levels : {a b : Site} → Path a b → Nat
  | _, _, here => 0
  | _, _, step s rest => s.levels + rest.levels

namespace Path

theorem depth_model? {a b : Site} {path : Path a b} {m : a.Model} {part : b.Model}
    (h : path.model? m = some part) : b.depth part + path.levels ≤ a.depth m := by
  induction path with
  | here =>
    cases h
    exact Nat.le_refl _
  | step s rest ih =>
    obtain ⟨inner, hinner, hrest⟩ := Option.bind_eq_some_iff.mp h
    have houter := Step.depth_model? hinner
    have hpart := ih hrest
    simp only [levels]
    omega

theorem depth_putModel {a b : Site} {path : Path a b} {new : b.Model} {m : a.Model} {k : Nat}
    (hm : a.depth m ≤ k) (hnew : b.depth new + path.levels ≤ k) :
    a.depth (path.putModel new m) ≤ k := by
  induction path generalizing k with
  | here => exact hnew
  | step s rest ih =>
    simp only [putModel]
    cases hpart : s.model? m with
    | none => exact hm
    | some part =>
      have hdepth := Step.depth_model? hpart
      simp only [levels] at hnew
      have hinner : Site.depth _ (rest.putModel new part) ≤ k - s.levels :=
        ih (by omega) (by omega)
      exact Step.depth_putModel hm (by omega)

end Path

/-- How many levels deeper than its list an entry stands. -/
def Target.levels : Target → Nat
  | slot _ => 0
  | commands | scenes => 1

/-- How many levels deeper than the script a component stands that was dropped at a place. -/
def Place.levels {a : Site} (p : Place a) : Nat := p.path.levels + p.target.levels

theorem depthItems_append (items : List Json) (json : Json) :
    Json.depthItems (items ++ [json]) = max (Json.depthItems items) json.depth := by
  induction items with
  | nil => simp [Json.depthItems]
  | cons item items ih => simp only [List.cons_append, Json.depthItems, ih, Nat.max_assoc]

/-- What takes a component nests as deep as the component does there, if it did not nest deeper
before. -/
theorem Target.Takes.depth_le_iff {c : Component} {t : Target} {old new : t.site.Model} {k : Nat}
    (h : t.Takes c old new) (hold : t.site.depth old ≤ k) :
    t.site.depth new ≤ k ↔ c.toJson.depth + t.levels ≤ k := by
  cases h with
  | slot old new h =>
    cases h
    rw [Component.depth_toJson]
    rfl
  | command ss s h =>
    cases h
    have hdepth : (Component.statement s).toJson.depth = s.toJson.depth :=
      Component.depth_toJson _
    simp only [Site.depth, Json.depth, levels, hdepth, List.map_append, List.map_cons,
      List.map_nil, depthItems_append] at hold ⊢
    omega
  | scene ss s h =>
    cases h
    have hdepth : (Component.scene s).toJson.depth = s.toJson.depth := Component.depth_toJson _
    simp only [Site.depth, Json.depth, levels, hdepth, List.map_append, List.map_cons,
      List.map_nil, depthItems_append] at hold ⊢
    omega

theorem Path.depth_putModel_le_iff {a b : Site} (path : Path a b) {old new : b.Model} {m : a.Model}
    {k : Nat} (hold : path.model? m = some old) (hnew : b.isShown new = true)
    (hm : a.depth m ≤ k) :
    a.depth (path.putModel new m) ≤ k ↔ b.depth new + path.levels ≤ k :=
  ⟨fun h => Nat.le_trans (depth_model? (path.model?_putModel hold hnew)) h, depth_putModel hm⟩

/-- A drop on a script that does not nest too deep comes to one that does not exactly if the
component does not at its place. -/
theorem Document.depth_dropAt_le_iff {d d' : Document} {drag drag' : Drag} {p : Payload}
    {c : Component} {i k : Nat} (hp : drag.payload = some p) (hc : p.decode = .ok c)
    (h : d.dropAt drag i = (d', drag', .ok .dropped)) (hd : d.model.toJson.depth ≤ k) :
    ∃ place, d.model.places[i]? = some place ∧
      (d'.model.toJson.depth ≤ k ↔ c.toJson.depth + place.levels ≤ k) := by
  obtain ⟨place, old, new, hplace, hold, htakes, hput⟩ := dropAt_takes hp hc h
  have hshown := place.target.isShown_model new
  have hdepth := place.path.depth_putModel_le_iff hold hshown hd
  have hpart : place.target.site.depth old + place.path.levels ≤ d.model.toJson.depth :=
    Path.depth_model? hold
  have hcomponent := htakes.depth_le_iff (k := k - place.path.levels) (by omega)
  refine ⟨place, hplace, ?_⟩
  rw [hput]
  refine hdepth.trans ?_
  unfold Place.levels
  omega

/-! ## The numbers in scripts -/

/-- The numbers of what stands at a site. -/
def Site.literals : (s : Site) → s.Model → List Binary64
  | slot _, e => e.literals
  | node _, e => e.literals
  | statement, s => s.literals
  | commands, ss => ss.flatMap Statement.literals
  | sequence, s => s.literals
  | scene, s => s.literals
  | scenes, ss => ss.flatMap Scene.literals
  | act, a => a.literals

theorem mem_flatMap_set {α β : Type} {f : α → List β} {as : List α} {i : Nat} {a : α} {x : β}
    (h : x ∈ (as.set i a).flatMap f) : x ∈ f a ∨ x ∈ as.flatMap f := by
  obtain ⟨b, hb, hx⟩ := List.mem_flatMap.mp h
  rcases List.mem_or_eq_of_mem_set hb with hb | rfl
  · exact .inr (List.mem_flatMap.mpr ⟨b, hb, hx⟩)
  · exact .inl hx

namespace Step

theorem literals_model? {a b : Site} {s : Step a b} {m : a.Model} {part : b.Model}
    (h : s.model? m = some part) : b.literals part ⊆ a.literals m := by
  intro x hx
  cases s with
  | occupant =>
    obtain ⟨-, h⟩ := Option.ite_none_left_eq_some.mp h
    cases h
    exact hx
  | commands | scenes =>
    cases h
    exact hx
  | command i | scene i => exact List.mem_flatMap.mpr ⟨part, List.mem_of_getElem? h, hx⟩
  | op1 => cases m <;> cases h; exact List.mem_append_left _ hx
  | op2 => cases m <;> cases h; exact List.mem_append_right _ hx
  | titleVideo | collection | relatedVideo | value =>
    cases m <;> cases h
    exact hx
  | preCommands | postCommands | duration | text | source | offset =>
    cases m <;> cases h <;>
      simp only [Site.literals, Scene.literals, Scene.preCommands, Scene.postCommands,
        Scene.duration, List.mem_append] at hx ⊢ <;>
      simp only [hx, true_or, or_true]

theorem mem_literals_putModel {a b : Site} {s : Step a b} {q : b.Model} {m : a.Model}
    {x : Binary64} (h : x ∈ a.literals (s.putModel q m)) : x ∈ b.literals q ∨ x ∈ a.literals m := by
  cases s with
  | occupant | commands | scenes => exact .inl h
  | command i | scene i => exact mem_flatMap_set h
  | titleVideo | collection | relatedVideo | value =>
    cases m <;> first | exact .inl h | exact .inr h
  | op1 | op2 =>
    cases m with
    | operation o a b =>
      simp only [putModel, Site.literals, Expr.literals, List.mem_append] at h ⊢
      grind
    | _ => exact .inr h
  | preCommands | postCommands | duration | text | source | offset =>
    cases m <;>
      simp only [putModel, Site.literals, Scene.literals, List.mem_append] at h ⊢ <;> grind

end Step

namespace Path

theorem literals_model? {a b : Site} {path : Path a b} {m : a.Model} {part : b.Model}
    (h : path.model? m = some part) : b.literals part ⊆ a.literals m := by
  induction path with
  | here =>
    cases h
    exact List.Subset.refl _
  | step s rest ih =>
    obtain ⟨inner, hinner, hrest⟩ := Option.bind_eq_some_iff.mp h
    exact List.Subset.trans (ih hrest) (Step.literals_model? hinner)

theorem mem_literals_putModel {a b : Site} {path : Path a b} {new : b.Model} {m : a.Model}
    {x : Binary64} (h : x ∈ a.literals (path.putModel new m)) :
    x ∈ b.literals new ∨ x ∈ a.literals m := by
  induction path with
  | here => exact .inl h
  | step s rest ih =>
    simp only [putModel] at h
    cases hpart : s.model? m with
    | none =>
      rw [hpart] at h
      exact .inr h
    | some part =>
      rw [hpart] at h
      rcases Step.mem_literals_putModel h with h | h
      · rcases ih h with h | h
        · exact .inl h
        · exact .inr (Step.literals_model? hpart h)
      · exact .inr h

end Path

theorem Target.Takes.mem_literals {c : Component} {t : Target} {old new : t.site.Model}
    {x : Binary64} (h : t.Takes c old new) (hx : x ∈ t.site.literals new) :
    x ∈ c.literals ∨ x ∈ t.site.literals old := by
  cases h with
  | slot old new h =>
    cases h
    exact .inl hx
  | command ss s h | scene ss s h =>
    cases h
    simp only [Site.literals, List.flatMap_append, List.mem_append] at hx
    rcases hx with hx | hx
    · exact .inr hx
    · have hentry : x ∈ s.literals := by simpa using hx
      exact .inl hentry

/-- Every number of a script that a drop came to was there before or came with the component. -/
theorem Document.mem_literals_dropAt {d d' : Document} {drag drag' : Drag} {p : Payload}
    {c : Component} {i : Nat} (hp : drag.payload = some p) (hc : p.decode = .ok c)
    (h : d.dropAt drag i = (d', drag', .ok .dropped)) {x : Binary64}
    (hx : x ∈ d'.model.literals) : x ∈ c.literals ∨ x ∈ d.model.literals := by
  obtain ⟨place, old, new, -, hold, htakes, hput⟩ := dropAt_takes hp hc h
  rw [hput] at hx
  rcases Path.mem_literals_putModel (a := .act) hx with hx | hx
  · rcases htakes.mem_literals hx with hx | hx
    · exact .inl hx
    · exact .inr (Path.literals_model? hold hx)
  · exact .inr hx

end SceneScript
