import Mathlib.Data.List.Nodup
import SceneScript.Proofs.Editor.Dragging
import SceneScript.Proofs.Editor.ReadOnly
import SceneScript.Proofs.Editor.Revisions

/-! Control edits and the script. A control announces an edit if it shows something else afterwards,
and what a control shows is part of the script; so a document counts the edits that changed its
script. A number is the exception. Its field goes by the text, and the same number spelled in
another way is announced as well. -/

namespace SceneScript

variable {α β : Type} {a b s : Site}

/-! ## Controls -/

/-- An edit was announced if something else is seen afterwards; otherwise nothing was done. -/
def Edited.Shows (view : α → β) (old : α) (e : Edited α) : Prop :=
  e = ⟨old, none⟩ ∨ e.origin = some .control ∧ view e.part ≠ view old

/-- The script of the part around a control shows what the control shows. -/
theorem Edited.Shows.into {view : α → β} {old : α} {e : Edited α} (h : e.Shows view old)
    (make : α → s.Part) (hmodel : ∀ new, s.model (make new) = s.model (make old) →
      view new = view old) :
    (e.into make fun o => s.announce o).Shows s.model (make old) := by
  obtain rfl | ⟨horigin, hne⟩ := h
  · exact .inl (congrArg (Edited.mk · none) (s.announce_none (make old)))
  · refine .inr ⟨horigin, fun hsame => hne (hmodel _ ?_)⟩
    exact (s.model_announce ..).symm.trans hsame

theorem TextField.setText_shows {f : TextField} {text : String} {e : Edited TextField}
    (h : f.setText text = .ok e) : e.Shows TextField.text f := by
  obtain ⟨-, rfl⟩ | ⟨hne, rfl⟩ := setText_cases h
  · exact .inl rfl
  · exact .inr ⟨rfl, hne⟩

theorem Choice.select_shows [BEq α] {options : List α} (hnodup : options.Nodup)
    {c : Choice options} {display : α → String} {x : α} {e : Edited (Choice options)}
    (h : c.select display x = .ok e) : e.Shows Choice.selected c := by
  obtain ⟨_, -, ⟨-, rfl⟩ | ⟨hne, rfl⟩⟩ := select_cases h
  · exact .inl rfl
  · exact .inr ⟨rfl, fun hsame => hne (Fin.ext ((hnodup.getElem_inj_iff).mp hsame))⟩

theorem VariableChoice.selectName_shows {v : VariableChoice} {name : String}
    {e : Edited VariableChoice} (h : v.selectName name = .ok e) : e.Shows Choice.selected v :=
  Choice.select_shows (by decide) (select_of_selectName h)

theorem OperatorChoice.selectSymbol_shows {o : OperatorChoice} {symbol : String}
    {e : Edited OperatorChoice} (h : o.selectSymbol symbol = .ok e) :
    e.Shows Choice.selected o := by
  obtain ⟨_, -, hselect⟩ := select_of_selectSymbol h
  exact Choice.select_shows (by decide) hselect

/-- A number that is spelled in another way is announced, and is the same. -/
theorem NumberField.setText_respelled {field : NumberField} {text : String} {e : Edited NumberField}
    (h : field.setText text = .ok e) (hne : text ≠ field.text)
    (hvalue : parseNumber text = .ok field.value) :
    e.origin = some .control ∧ e.part.value = field.value := by
  obtain ⟨value, hread, ⟨hsame, -⟩ | ⟨-, rfl⟩⟩ := setText_cases h
  · exact absurd hsame hne
  · exact ⟨rfl, Except.ok.inj (hread.symm.trans hvalue)⟩

theorem NumberField.setText_shows {field : NumberField} {text : String} {e : Edited NumberField}
    (h : field.setText text = .ok e)
    (hr : ¬ (text ≠ field.text ∧ parseNumber text = .ok field.value)) :
    e.Shows NumberField.value field := by
  obtain ⟨value, hvalue, ⟨-, rfl⟩ | ⟨hne, rfl⟩⟩ := setText_cases h
  · exact .inl rfl
  · exact .inr ⟨rfl, fun hsame => hr ⟨hne, hvalue.trans (congrArg Except.ok hsame)⟩⟩

/-- The two texts that a comment box shows. -/
def CommentBox.texts (box : CommentBox) : String × String := (box.title.text, box.comment.text)

theorem CommentBox.setTitle_shows {box : CommentBox} {text : String} {e : Edited CommentBox}
    (h : box.setTitle text = .ok e) : e.Shows texts box := by
  obtain ⟨e', hset, h⟩ := bind_eq_ok h
  cases h
  obtain rfl | ⟨horigin, hne⟩ := TextField.setText_shows hset
  · exact .inl rfl
  · exact .inr ⟨horigin, fun hsame => hne (Prod.mk.inj hsame).1⟩

theorem CommentBox.setComment_shows {box : CommentBox} {text : String} {e : Edited CommentBox}
    (h : box.setComment text = .ok e) : e.Shows texts box := by
  obtain ⟨e', hset, h⟩ := bind_eq_ok h
  cases h
  obtain rfl | ⟨horigin, hne⟩ := TextField.setText_shows hset
  · exact .inl rfl
  · exact .inr ⟨horigin, fun hsame => hne (Prod.mk.inj hsame).2⟩

/-! ## Parts -/

/-- The script of a scene has the texts of its comment box. -/
theorem SceneNode.shows_comment {n : SceneNode} {e : Edited CommentBox}
    (h : e.Shows CommentBox.texts n.frame.comment) :
    (e.into (fun comment => n.withFrame { n.frame with comment })
      fun o => Site.announce o .scene).Shows Site.scene.model n := by
  have hshows := h.into (s := .scene)
    (fun comment => n.withFrame { n.frame with comment }) fun new hsame => by
      cases n with
      | text frame text =>
        injection Scene.text.inj hsame with htitle hcomment
        exact Prod.ext htitle hcomment
      | video frame source offset =>
        injection Scene.video.inj hsame with htitle hcomment
        exact Prod.ext htitle hcomment
  rw [n.withFrame_comment] at hshows
  exact hshows

namespace Action

/-- The action spells the number of a field in another way. -/
def Respells : Action → (s : Site) → s.Part → Prop
  | setText text, .node .number, .number field _ =>
    text ≠ field.text ∧ parseNumber text = .ok field.value
  | _, _, _ => False

theorem respells_on {x : Action} {p : s.Part} {e : Edited s.Part} (h : x.on s p = .ok e)
    (hr : x.Respells s p) : e.origin = some .control ∧ s.model e.part = s.model p := by
  cases succeeds h with
  | setNumber hset =>
    obtain ⟨horigin, hsame⟩ := NumberField.setText_respelled hset hr.1 hr.2
    exact ⟨horigin, congrArg Expr.number hsame⟩
  | _ => cases hr

/-- A control edit that succeeds is announced exactly if the script of the part is another one
afterwards, unless it spells a number in another way. -/
theorem on_shows {x : Action} (hx : x.isControlEdit = true) {p : s.Part} {e : Edited s.Part}
    (h : x.on s p = .ok e) (hr : ¬ x.Respells s p) : e.Shows s.model p := by
  cases succeeds h with
  | @setNumber text field n e hset =>
    exact (NumberField.setText_shows hset hr).into (s := .node .number) (.number · n)
      fun new hsame => Expr.number.inj hsame
  | @setText text field n e hset =>
    exact (TextField.setText_shows hset).into (s := .node .text) (.text · n)
      fun new hsame => Expr.text.inj hsame
  | @setUrl text field n e hset =>
    exact (TextField.setText_shows hset).into (s := .node .video) (.url · n)
      fun new hsame => Expr.url.inj hsame
  | @setOperator symbol o x y n e hselect =>
    exact (OperatorChoice.selectSymbol_shows hselect).into (s := .node .number) (.operation · x y n)
      fun new hsame => (Expr.operation.inj hsame).1
  | @selectGot name v n e hselect =>
    exact (VariableChoice.selectName_shows hselect).into (s := .statement) (.get · n)
      fun new hsame => Statement.get.inj hsame
  | @selectSet name v value n e hselect =>
    exact (VariableChoice.selectName_shows hselect).into (s := .statement) (.set · value n)
      fun new hsame => (Statement.set.inj hsame).1
  | setTitle hset => exact SceneNode.shows_comment (CommentBox.setTitle_shows hset)
  | setComment hset => exact SceneNode.shows_comment (CommentBox.setComment_shows hset)
  | fill | fillComponent | clear | appendStatement | appendScene | appendStatementComponent
  | appendSceneComponent | addCommand | addScene => cases hx

end Action

/-! ## Documents -/

namespace Document

/-- The script is another one exactly if that of the edited part is. -/
theorem model_put_eq_iff {d : Document} {path : Path .act b} {part : b.Part}
    (hpart : path.get? d.root = some part) (e : Edited b.Part) :
    (path.put e d.root).model = d.model ↔ b.model e.part = b.model part := by
  constructor
  · intro hsame
    have hafter : path.model? (path.put e d.root).model = some (b.model e.part) :=
      Path.model?_of_get? (Path.get?_put hpart e)
    have hbefore : path.model? d.model = some (b.model part) := Path.model?_of_get? hpart
    rw [hsame] at hafter
    exact Option.some.inj (hafter.symm.trans hbefore)
  · intro hsame
    calc (path.put e d.root).model
        = path.putModel (b.model e.part) d.model := path.model_put e hpart
      _ = path.putModel (b.model part) d.model := by rw [hsame]
      _ = (path.put ⟨part, none⟩ d.root).model := (path.model_put ⟨part, none⟩ hpart).symm
      _ = d.model := congrArg ActNode.model (Path.put_get? hpart)

/-- An edit succeeds if it does in the part it is made in. -/
theorem edit_done_iff {d after : Document} {path : Path .act b} {x : Action} :
    (Operation.edit path x).inPlace d = (after, .ok .done) ↔
      ∃ part e, path.get? d.root = some part ∧ x.on b part = .ok e ∧
        after = d.apply ⟨path.put e d.root, e.origin⟩ := by
  rw [Operation.inPlace_eq]
  simp only [Operation.on, change]
  cases path.get? d.root with
  | none => simp
  | some part =>
    cases hon : x.on b part with
    | error f => simp [hon]
    | ok e => simp [hon, eq_comm]

/-- What a control edit that succeeds adds to the count of changes. It is one if the script is
another one afterwards; and none if the script is the same, but for a number that is spelled in
another way, which counts although the script is the same. -/
theorem control_edits_counted (d : Document) (path : Path .act b) {x : Action}
    (hx : x.isControlEdit = true) {after : Document}
    (h : (Operation.edit path x).inPlace d = (after, .ok .done)) :
    ∃ part, path.get? d.root = some part ∧
      (after.model ≠ d.model → after.version = d.version + 1) ∧
      (after.model = d.model → ¬ x.Respells b part → after.version = d.version) ∧
      (x.Respells b part → after.model = d.model ∧ after.version = d.version + 1) := by
  obtain ⟨part, e, hpart, hon, rfl⟩ := edit_done_iff.mp h
  have hmodel := (d.model_apply ⟨path.put e d.root, e.origin⟩ ▸ model_put_eq_iff hpart e :
    (d.apply ⟨path.put e d.root, e.origin⟩).model = d.model ↔ _)
  have hversion : e.origin = some .control →
      (d.apply ⟨path.put e d.root, e.origin⟩).version = d.version + 1 := by
    intro horigin
    rw [horigin]
    rfl
  refine ⟨part, hpart, ?_⟩
  by_cases hr : x.Respells b part
  · obtain ⟨horigin, hsame⟩ := Action.respells_on hon hr
    exact ⟨fun _ => hversion horigin, fun _ hnot => absurd hr hnot,
      fun _ => ⟨hmodel.mpr hsame, hversion horigin⟩⟩
  · obtain rfl | ⟨horigin, hne⟩ := Action.on_shows hx hon hr
    · exact ⟨fun hdiffers => absurd (hmodel.mpr rfl) hdiffers, fun _ _ => rfl,
        fun hrespells => absurd hrespells hr⟩
    · exact ⟨fun _ => hversion horigin, fun hsame => absurd (hmodel.mp hsame) hne,
        fun hrespells => absurd hrespells hr⟩

end Document

/-- A scene of so many seconds. -/
def sampleTimedScene (x : Binary64) : Scene := .text ⟨"a", "", .number x, ⟨[]⟩, ⟨[]⟩, .gap⟩

theorem sampleTimedScene_inj {x y : Binary64} (h : sampleTimedScene x = sampleTimedScene y) :
    x = y := by
  cases h
  rfl

/-- A document of one scene that lasts five seconds. -/
def sampleTimed : Document :=
  ⟨⟨⟨[.text ⟨.new "a" "", .full .new (sampleNumber (.ofInt 5)), ⟨⟨[], .new⟩⟩, ⟨⟨[], .new⟩⟩, 0⟩
    (.empty .new)], .new⟩, 0⟩, 0, false, []⟩

/-- A number is typed over that of the scene. -/
def sampleRetimed (text : String) (value : Binary64) : Document :=
  sampleTimed.apply ⟨sampleDurationNode.put ⟨.number ⟨text, value, false⟩ 1, some .control⟩
    sampleTimed.root, some .control⟩

theorem model_sampleRetimed (text : String) (value : Binary64) :
    (sampleRetimed text value).model = ⟨[sampleTimedScene value]⟩ := rfl

theorem sampleTimed_typed {text : String} {value : Binary64} (hvalue : parseNumber text = .ok value)
    (hne : text ≠ (Binary64.ofInt 5).plainText) :
    (Operation.edit sampleDurationNode (.setText text)).inPlace sampleTimed =
      (sampleRetimed text value, .ok .done) := by
  have hset : (NumberField.new (.ofInt 5)).setText text =
      .ok ⟨⟨text, value, false⟩, some .control⟩ := by
    simp only [NumberField.setText, NumberField.new, hvalue, bind_ok, Bool.false_eq_true, if_false]
    exact if_neg hne
  refine Document.edit_done_iff.mpr
    ⟨sampleNumber (.ofInt 5), ⟨.number ⟨text, value, false⟩ 1, some .control⟩, rfl, ?_, rfl⟩
  simp only [Action.on, sampleNumber, Node.setText?, hset, bind_ok]
  rfl

/-- Another number counts. -/
theorem sampleTimed_counted :
    (Action.setText "6").isControlEdit = true ∧
      ∃ after, (Operation.edit sampleDurationNode (.setText "6")).inPlace sampleTimed =
        (after, .ok .done) ∧ after.model ≠ sampleTimed.model ∧ after.version = 1 := by
  have hvalue : parseNumber "6" = .ok (.ofInt 6) := by decide +kernel
  have htyped := sampleTimed_typed hvalue (by decide +kernel)
  obtain ⟨part, -, hcounted, -⟩ := sampleTimed.control_edits_counted sampleDurationNode rfl htyped
  have hother : Binary64.ofInt 6 ≠ .ofInt 5 := by decide +kernel
  have hmodel : (sampleRetimed "6" (.ofInt 6)).model ≠ sampleTimed.model := fun hsame =>
    hother (sampleTimedScene_inj (List.cons.inj (Act.mk.inj hsame)).1)
  exact ⟨rfl, _, htyped, hmodel, hcounted hmodel⟩

/-- The same number in another spelling counts as well, although the script is the same. -/
theorem sampleTimed_respelled :
    Document.ofAct ⟨[sampleTimedScene (.ofInt 5)]⟩ = .ok sampleTimed ∧
      ∃ after, (Operation.edit sampleDurationNode (.setText "5.0")).inPlace sampleTimed =
        (after, .ok .done) ∧ after.model = sampleTimed.model ∧
          after.version ≠ sampleTimed.version := by
  have hvalue : parseNumber "5.0" = .ok (.ofInt 5) := by decide +kernel
  have htyped := sampleTimed_typed hvalue (by decide +kernel)
  exact ⟨rfl, _, htyped, model_sampleRetimed .., nofun⟩

end SceneScript
