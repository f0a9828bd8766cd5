import SceneScript.Proofs.Editor.Rebuilding

/-! Drags from live parts. A drag carries the text of what it was started from, and a target takes
what that text is read as. So the target is left with an exact copy if and only if the text does not
nest too deep to be read and each number in it is read as itself; what cannot be read at all is
rejected, though the target is of the right category. -/

namespace SceneScript

/-! ## What rereading keeps -/

theorem Component.category_reread? : ∀ {c c' : Component}, c.reread? = some c' →
    c'.category = c.category
  | .expr e, c', h => by
    obtain ⟨e', -, h⟩ := Option.bind_eq_some_iff.mp h
    cases h
    rfl
  | .statement s, c', h => by
    obtain ⟨s', -, h⟩ := Option.bind_eq_some_iff.mp h
    cases h
    rfl
  | .scene s, c', h => by
    obtain ⟨s', -, h⟩ := Option.bind_eq_some_iff.mp h
    cases h
    rfl
  | .sequence s, c', h => by
    obtain ⟨s', -, h⟩ := Option.bind_eq_some_iff.mp h
    cases h
    rfl
  | .act a, c', h => by
    obtain ⟨a', -, h⟩ := Option.bind_eq_some_iff.mp h
    cases h
    rfl

theorem Statement.variable_reread? : ∀ {s s' : Statement}, s.reread? = some s' →
    s'.variable = s.variable
  | .get name, s', h => by
    cases h
    rfl
  | .set name value, s', h => by
    obtain ⟨value', -, h⟩ := Option.bind_eq_some_iff.mp h
    cases h
    rfl

theorem mapM_variables {α : Type} {reread? : α → Option α} {names : α → List String}
    (h : ∀ {a a'}, reread? a = some a' → names a' = names a) : ∀ {as as' : List α},
    as.mapM reread? = some as' → as'.flatMap names = as.flatMap names
  | [], as', has => by
    cases has
    rfl
  | a :: as, as', has => by
    rw [List.mapM_cons] at has
    obtain ⟨a', ha, has⟩ := Option.bind_eq_some_iff.mp has
    obtain ⟨as'', has', has⟩ := Option.bind_eq_some_iff.mp has
    cases has
    rw [List.flatMap_cons, List.flatMap_cons, h ha, mapM_variables h has']

theorem CommandSequence.variables_reread? {s s' : CommandSequence} (h : s.reread? = some s') :
    s'.variables = s.variables := by
  obtain ⟨commands, hcommands, h⟩ := Option.bind_eq_some_iff.mp h
  cases h
  unfold CommandSequence.variables
  rw [List.map_eq_flatMap, List.map_eq_flatMap]
  exact mapM_variables (fun hs => congrArg ([·]) (Statement.variable_reread? hs)) hcommands

theorem Scene.variables_reread? {s s' : Scene} (h : s.reread? = some s') :
    s'.variables = s.variables := by
  have hboth : ∀ {pre pre' post post' : CommandSequence}, pre.reread? = some pre' →
      post.reread? = some post' →
        pre'.variables ++ post'.variables = pre.variables ++ post.variables := by
    intro pre pre' post post' hpre hpost
    rw [CommandSequence.variables_reread? hpre, CommandSequence.variables_reread? hpost]
  cases s with
  | text s =>
    obtain ⟨duration, -, h⟩ := Option.bind_eq_some_iff.mp h
    obtain ⟨pre, hpre, h⟩ := Option.bind_eq_some_iff.mp h
    obtain ⟨post, hpost, h⟩ := Option.bind_eq_some_iff.mp h
    obtain ⟨text, -, h⟩ := Option.bind_eq_some_iff.mp h
    cases h
    exact hboth hpre hpost
  | video s =>
    obtain ⟨duration, -, h⟩ := Option.bind_eq_some_iff.mp h
    obtain ⟨pre, hpre, h⟩ := Option.bind_eq_some_iff.mp h
    obtain ⟨post, hpost, h⟩ := Option.bind_eq_some_iff.mp h
    obtain ⟨offset, -, h⟩ := Option.bind_eq_some_iff.mp h
    obtain ⟨source, -, h⟩ := Option.bind_eq_some_iff.mp h
    cases h
    exact hboth hpre hpost

theorem Component.variables_reread? {c c' : Component} (h : c.reread? = some c') :
    c'.variables = c.variables := by
  cases c with
  | expr e =>
    obtain ⟨e', -, h⟩ := Option.bind_eq_some_iff.mp h
    cases h
    rfl
  | statement s =>
    obtain ⟨s', hs, h⟩ := Option.bind_eq_some_iff.mp h
    cases h
    exact congrArg ([·]) (Statement.variable_reread? hs)
  | scene s =>
    obtain ⟨s', hs, h⟩ := Option.bind_eq_some_iff.mp h
    cases h
    exact Scene.variables_reread? hs
  | sequence s =>
    obtain ⟨s', hs, h⟩ := Option.bind_eq_some_iff.mp h
    cases h
    exact CommandSequence.variables_reread? hs
  | act a =>
    obtain ⟨a', ha, h⟩ := Option.bind_eq_some_iff.mp h
    cases h
    obtain ⟨scenes, hscenes, ha⟩ := Option.bind_eq_some_iff.mp ha
    cases ha
    exact mapM_variables Scene.variables_reread? hscenes

theorem Component.loaded?_reread {c c' : Component} (h : c.loaded? = some c') :
    c.reread? = some c' := by
  unfold loaded? at h
  split at h
  · exact h
  · cases h

/-! ## What targets take -/

/-- What a target took is told by what stands there before and after. -/
theorem Target.Takes.unique {t : Target} {c c' : Component} {old new : t.site.Model}
    (h : t.Takes c old new) (h' : t.Takes c' old new) : c = c' := by
  cases t with
  | slot f => exact h.of_slot.trans h'.of_slot.symm
  | commands =>
    cases h with
    | command ss s h =>
      generalize hnew : (old ++ [s] : List Statement) = new at h'
      cases h' with
      | command _ s' h' =>
        have hsame : s = s' := List.singleton_inj.mp (List.append_cancel_left hnew)
        rw [h, h', hsame]
  | scenes =>
    cases h with
    | scene ss s h =>
      generalize hnew : (old ++ [s] : List Scene) = new at h'
      cases h' with
      | scene _ s' h' =>
        have hsame : s = s' := List.singleton_inj.mp (List.append_cancel_left hnew)
        rw [h, h', hsame]

/-- The names in a live part are those of its choices. -/
theorem Site.variables_snapshot {s : Site} {p : s.Part} {c : Component}
    (h : s.snapshot? p = some c) : ∀ name ∈ c.variables, name ∈ variableNames := by
  cases s with
  | node f =>
    cases h
    exact nofun
  | statement =>
    cases h
    exact List.forall_mem_singleton.mpr p.variable_mem
  | scene =>
    cases h
    exact fun name hname => SceneNode.variables_mem hname
  | slot | commands | sequence | scenes | act => cases h

/-! ## Gestures -/

/-- A payload that cannot be read is let in nowhere. -/
theorem Drag.resolve_unreadable {p : Payload} {f : EditorError} (h : p.decode = .error f)
    {t : Target} {part : t.Part} (henabled : t.isEnabled part = true) :
    resolve p t part = .ok (.cancelled .rejected, ⟨part, none⟩) := by
  have hrefused : t.dragEnter part p = false := by
    simp only [Target.dragEnter, h, Bool.and_false]
  simp only [resolve, henabled, hrefused, Bool.not_true, Bool.not_false, Bool.false_eq_true,
    if_true, if_false]

/-- A drag from a live part, released over an enabled target of its category: the target takes what
the text of the part is read as, and if it cannot be read the drop is rejected. -/
theorem Drag.start_dropOn {s : Site} {p : s.Part} {c : Component} (hc : s.snapshot? p = some c)
    {drag : Drag} (hidle : drag.isDragging = false) {t : Target} {part : t.Part}
    (henabled : t.isEnabled part = true) (haccepts : t.accepts c = true) :
    ∃ held, drag.start c = .ok held ∧
      (∀ c', c.loaded? = some c' → ∃ e,
        held.dropOn t part = (held.finish .dropped, .ok (.dropped, e)) ∧
          t.Takes c' (t.site.model part) (t.site.model e.part)) ∧
      (c.loaded? = none → held.dropOn t part =
        (held.finish (.cancelled .rejected), .ok (.cancelled .rejected, ⟨part, none⟩))) := by
  refine ⟨⟨some (.encode c), drag.events ++ [.started c]⟩, ?_, ?_, ?_⟩
  · simp only [start, hidle, Bool.false_eq_true, if_false]
  · intro c' hloaded
    -- what is read differs from what was written in its numbers only, so it is taken as readily
    have hdecode : (Payload.encode c).decode = .ok c' :=
      eq_ok_of_toOption ((Payload.decode_encode c).trans hloaded)
    have hreread := Component.loaded?_reread hloaded
    have haccepts' : t.accepts c' = true := by
      rw [Target.accepts, Component.category_reread? hreread]
      exact haccepts
    have hnames : ∀ name ∈ c'.variables, name ∈ variableNames := by
      rw [Component.variables_reread? hreread]
      exact Site.variables_snapshot hc
    obtain ⟨e, haccept⟩ := (Target.buildsWith_accept haccepts' part).exists_ok hnames
    have hresolve := (Drag.resolve_dropped hdecode).mpr ⟨henabled, haccepts', haccept⟩
    refine ⟨e, ?_, t.takes_accept haccept⟩
    simp only [dropOn, hresolve]
  · intro hloaded
    obtain ⟨f, hdecode⟩ := eq_error_of_toOption ((Payload.decode_encode c).trans hloaded)
    simp only [dropOn, resolve_unreadable hdecode henabled]

/-- A drag from a live part, released over an enabled target of its category, leaves an exact copy
there if and only if the text of the part nests at most 127 deep and each of its numbers is read as
itself. Nested deeper it is rejected, and a number that is read as another arrives as that one. -/
theorem Drag.copies_exactly {s : Site} {p : s.Part} {c : Component} (hc : s.snapshot? p = some c)
    {drag : Drag} (hidle : drag.isDragging = false) {t : Target} {part : t.Part}
    (henabled : t.isEnabled part = true) (haccepts : t.accepts c = true) :
    ∃ held, drag.start c = .ok held ∧
      ((∃ e, held.dropOn t part = (held.finish .dropped, .ok (.dropped, e)) ∧
          t.Takes c (t.site.model part) (t.site.model e.part)) ↔
        c.toJson.depth ≤ 127 ∧ ∀ x ∈ c.literals, x.reread? = some x) ∧
      (127 < c.toJson.depth → held.dropOn t part =
        (held.finish (.cancelled .rejected), .ok (.cancelled .rejected, ⟨part, none⟩))) ∧
      ∀ c', c.toJson.depth ≤ 127 → c.reread? = some c' →
        ∃ e, held.dropOn t part = (held.finish .dropped, .ok (.dropped, e)) ∧
          t.Takes c' (t.site.model part) (t.site.model e.part) := by
  obtain ⟨held, hstart, hloaded, hbroken⟩ := start_dropOn hc hidle henabled haccepts
  refine ⟨held, hstart, ⟨?_, ?_⟩, ?_, ?_⟩
  · rintro ⟨e, hdrop, htakes⟩
    rw [← c.loaded?_eq_self]
    cases hc' : c.loaded? with
    | none =>
      have houtcome := congrArg Prod.snd ((hbroken hc').symm.trans hdrop)
      cases houtcome
    | some c' =>
      obtain ⟨e', hdrop', htakes'⟩ := hloaded c' hc'
      have houtcome := congrArg Prod.snd (hdrop'.symm.trans hdrop)
      cases houtcome
      rw [htakes.unique htakes']
  · intro hself
    exact hloaded c (c.loaded?_eq_self.mpr hself)
  · intro hdeep
    exact hbroken (if_neg (Nat.not_le_of_lt hdeep))
  · intro c' hdepth hreread
    exact hloaded c' ((if_pos hdepth).trans hreread)

def sampleNumber (x : Binary64) : Node .number := .number (.new x) 0

/-- A number that is read as itself is copied. -/
theorem sampleNumber_copied :
    Site.snapshot? (.node .number) (sampleNumber (.ofInt 5)) = some (.expr (.number (.ofInt 5))) ∧
      ∃ held e, Drag.idle.start (.expr (.number (.ofInt 5))) = .ok held ∧
        held.dropOn (.slot .number) (.empty .new) = (held.finish .dropped, .ok (.dropped, e)) ∧
        Target.Takes (.expr (.number (.ofInt 5))) (.slot .number) .gap (Slot.model e.part) := by
  have hreread : (Binary64.ofInt 5).reread? = some (.ofInt 5) := by decide +kernel
  have hsnapshot : Site.snapshot? (.node .number) (sampleNumber (.ofInt 5)) =
      some (.expr (.number (.ofInt 5))) := rfl
  have hidle : Drag.idle.isDragging = false := rfl
  have henabled : (Target.slot .number).isEnabled (.empty .new) = true := rfl
  obtain ⟨held, hstart, hcopied, -⟩ := Drag.copies_exactly hsnapshot hidle henabled rfl
  have hdepth : (Component.expr (.number (.ofInt 5))).toJson.depth ≤ 127 := by decide +kernel
  obtain ⟨e, hdrop, htakes⟩ := hcopied.mpr ⟨hdepth, List.forall_mem_singleton.mpr hreread⟩
  exact ⟨hsnapshot, held, e, hstart, hdrop, htakes⟩

/-- The number before one, 0.9999999999999999. -/
def nearlyOne : Binary64 := ⟨false, 4607182418800017407, by decide⟩

theorem nearlyOne_reread : nearlyOne.reread? = some (.ofInt 1) := by decide +kernel

def sampleDuration : Path .act (.slot .number) :=
  .step .scenes (.step (.scene 0) (.step .duration .here))

def sampleDurationNode : Path .act (.node .number) :=
  .step .scenes (.step (.scene 0) (.step .duration (.step .occupant .here)))

/-- The duration is filled, and another number typed into it. -/
def sampleTyping : List Operation :=
  [.accept ⟨.slot .number, sampleDuration⟩ (.expr (.number (.ofInt 5))),
   .edit sampleDurationNode (.setText "0.9999999999999999")]

/-- A number that is typed in and dragged somewhere else is one when it arrives. -/
theorem sampleTyping_drifts :
    ∃ (node : Node .number) (held : Drag) (e : Edited (Slot .number)),
      sampleDurationNode.get? (sampleDocument.run sampleTyping).root = some node ∧
      Site.snapshot? (.node .number) node = some (.expr (.number nearlyOne)) ∧
      nearlyOne.isFinite = true ∧ Drag.idle.start (.expr (.number nearlyOne)) = .ok held ∧
      held.dropOn (.slot .number) (.empty .new) = (held.finish .dropped, .ok (.dropped, e)) ∧
      e.part.model = .number (.ofInt 1) ∧ nearlyOne ≠ .ofInt 1 := by
  have htyped : (sampleDurationNode.get? (sampleDocument.run sampleTyping).root).bind
      (Site.snapshot? (.node .number)) = some (.expr (.number nearlyOne)) := by
    decide +kernel
  obtain ⟨node, hnode, hsnapshot⟩ := Option.bind_eq_some_iff.mp htyped
  have hloaded : (Component.expr (.number nearlyOne)).loaded? =
      some (.expr (.number (.ofInt 1))) := by
    refine (if_pos (by decide +kernel)).trans ?_
    simp only [Component.reread?, Expr.reread?, nearlyOne_reread, Option.bind_eq_bind,
      Option.bind_some]
  have hidle : Drag.idle.isDragging = false := rfl
  have henabled : (Target.slot .number).isEnabled (.empty .new) = true := rfl
  obtain ⟨held, hstart, hdrops, -⟩ := Drag.start_dropOn hsnapshot hidle henabled rfl
  obtain ⟨e, hdrop, htakes⟩ := hdrops _ hloaded
  have hmodel : Component.expr (.number (.ofInt 1)) = .expr (Slot.model e.part) := htakes.of_slot
  simp only [Component.expr.injEq, heq_eq_eq, true_and] at hmodel
  exact ⟨node, held, e, hnode, hsnapshot, by decide, hstart, hdrop, hmodel.symm,
    by decide +kernel⟩

end SceneScript
