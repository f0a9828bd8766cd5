import SceneScript.Editor.Session
import SceneScript.Proofs.Editor.Drop

/-! Edits that succeed. An action has a meaning on few parts, and there it edits one control, fills
or empties a slot, or makes a list longer; what a target takes is one of these cases. Everything
that is known of a successful edit is read off from them, and from the cases of its control. -/

namespace SceneScript

variable {s : Site}

/-! ## Controls

A control that is edited takes what it was given. It announces that, unless it held the same. -/

theorem TextField.setText_cases {f : TextField} {text : String} {e : Edited TextField}
    (h : f.setText text = .ok e) :
    text = f.text ∧ e = ⟨f, none⟩ ∨ text ≠ f.text ∧ e = ⟨{ f with text }, some .control⟩ := by
  unfold setText at h
  split at h
  · cases h
  split at h
  · rename_i hsame
    cases h
    exact .inl ⟨hsame, rfl⟩
  · rename_i hne
    cases h
    exact .inr ⟨hne, rfl⟩

theorem NumberField.setText_cases {f : NumberField} {text : String} {e : Edited NumberField}
    (h : f.setText text = .ok e) : ∃ value, parseNumber text = .ok value ∧
      (text = f.text ∧ e = ⟨f, none⟩ ∨
        text ≠ f.text ∧ e = ⟨{ f with text, value }, some .control⟩) := by
  unfold setText at h
  split at h
  · cases h
  obtain ⟨value, hvalue, h⟩ := bind_eq_ok h
  refine ⟨value, hvalue, ?_⟩
  split at h
  · rename_i hsame
    cases h
    exact .inl ⟨hsame, rfl⟩
  · rename_i hne
    cases h
    exact .inr ⟨hne, rfl⟩

theorem Choice.select_cases {α : Type} [BEq α] {options : List α} {c : Choice options}
    {display : α → String} {a : α} {e : Edited (Choice options)} (h : c.select display a = .ok e) :
    ∃ i, options.finIdxOf? a = some i ∧
      (i = c.index ∧ e = ⟨c, none⟩ ∨ i ≠ c.index ∧ e = ⟨{ c with index := i }, some .control⟩) := by
  unfold select at h
  split at h
  · cases h
  split at h
  · cases h
  rename_i i hi
  refine ⟨i, hi, ?_⟩
  split at h
  · rename_i hsame
    cases h
    exact .inl ⟨hsame, rfl⟩
  · rename_i hne
    cases h
    exact .inr ⟨hne, rfl⟩

theorem VariableChoice.select_of_selectName {v : VariableChoice} {name : String}
    {e : Edited VariableChoice} (h : v.selectName name = .ok e) : v.select id name = .ok e := by
  unfold selectName at h
  split at h
  · exact h
  · cases h

theorem OperatorChoice.select_of_selectSymbol {o : OperatorChoice} {symbol : String}
    {e : Edited OperatorChoice} (h : o.selectSymbol symbol = .ok e) :
    ∃ new, Operator.ofSymbol? symbol = some new ∧ o.select Operator.symbol new = .ok e := by
  unfold selectSymbol at h
  split at h
  · exact ⟨_, ‹_›, h⟩
  · cases h

/-! ## Actions -/

theorem Component.eq_of_statement? {c : Component} {s : Statement} (h : c.statement? = some s) :
    c = .statement s := by
  cases c <;> cases h
  rfl

theorem Component.eq_of_scene? {c : Component} {s : Scene} (h : c.scene? = some s) :
    c = .scene s := by
  cases c <;> cases h
  rfl

/-- What an action that succeeds on a part does to it. -/
inductive Action.Succeeds : Action → (s : Site) → (p : s.Part) → Edited s.Part → Prop
  | setNumber {text : String} {field : NumberField} {n : Nat} {e : Edited NumberField}
    (h : field.setText text = .ok e) :
    Succeeds (.setText text) (.node .number) (.number field n)
      (e.into (.number · n) fun o => Site.announce o (.node .number))
  | setText {text : String} {field : TextField} {n : Nat} {e : Edited TextField}
    (h : field.setText text = .ok e) :
    Succeeds (.setText text) (.node .text) (.text field n)
      (e.into (.text · n) fun o => Site.announce o (.node .text))
  | setUrl {text : String} {field : TextField} {n : Nat} {e : Edited TextField}
    (h : field.setText text = .ok e) :
    Succeeds (.setText text) (.node .video) (.url field n)
      (e.into (.url · n) fun o => Site.announce o (.node .video))
  | setOperator {symbol : String} {o : OperatorChoice} {x y : Slot .number} {n : Nat}
    {e : Edited OperatorChoice} (h : o.selectSymbol symbol = .ok e) :
    Succeeds (.setOperator symbol) (.node .number) (.operation o x y n)
      (e.into (.operation · x y n) fun o => Site.announce o (.node .number))
  | selectGot {name : String} {v : VariableChoice} {n : Nat} {e : Edited VariableChoice}
    (h : v.selectName name = .ok e) :
    Succeeds (.selectVariable name) .statement (.get v n)
      (e.into (.get · n) fun o => Site.announce o .statement)
  | selectSet {name : String} {v : VariableChoice} {value : Slot .number} {n : Nat}
    {e : Edited VariableChoice} (h : v.selectName name = .ok e) :
    Succeeds (.selectVariable name) .statement (.set v value n)
      (e.into (.set · value n) fun o => Site.announce o .statement)
  | setTitle {text : String} {n : SceneNode} {e : Edited CommentBox}
    (h : n.frame.comment.setTitle text = .ok e) :
    Succeeds (.setTitle text) .scene n
      (e.into (fun comment => n.withFrame { n.frame with comment })
        fun o => Site.announce o .scene)
  | setComment {text : String} {n : SceneNode} {e : Edited CommentBox}
    (h : n.frame.comment.setComment text = .ok e) :
    Succeeds (.setComment text) .scene n
      (e.into (fun comment => n.withFrame { n.frame with comment })
        fun o => Site.announce o .scene)
  | fill {f : Family} {new : Expr f} {slot : Slot f} {e : Edited (Slot f)}
    (h : slot.fill new = .ok e) : Succeeds (.fill (.expr new)) (.slot f) slot e
  | fillComponent {f : Family} {new : Expr f} {slot : Slot f} {e : Edited (Slot f)}
    (h : slot.fill new = .ok e) : Succeeds (.fillComponent (.expr new)) (.slot f) slot e
  | clear {f : Family} {frame : Frame} {node : Node f} :
    Succeeds .clear (.slot f) (.full frame node)
      ⟨(Slot.empty frame).announce (some .slotEmptied), some .slotEmptied⟩
  | appendStatement {m : Statement} {l : ListEditor StatementNode}
    {e : Edited (ListEditor StatementNode)} (h : l.append m = .ok e) :
    Succeeds (.append (.statement m)) .commands l e
  | appendScene {m : Scene} {l : ListEditor SceneNode} {e : Edited (ListEditor SceneNode)}
    (h : l.append m = .ok e) : Succeeds (.append (.scene m)) .scenes l e
  | appendStatementComponent {m : Statement} {l : ListEditor StatementNode}
    {e : Edited (ListEditor StatementNode)} (h : l.append m = .ok e) :
    Succeeds (.appendComponent (.statement m)) .commands l e
  | appendSceneComponent {m : Scene} {l : ListEditor SceneNode} {e : Edited (ListEditor SceneNode)}
    (h : l.append m = .ok e) : Succeeds (.appendComponent (.scene m)) .scenes l e
  | addCommand {m : Statement} {l : ListEditor StatementNode}
    {e : Edited (ListEditor StatementNode)} (h : l.append m = .ok e) :
    Succeeds (.append (.statement m)) .sequence ⟨l⟩
      (e.into SequenceNode.mk fun o => Site.announce o .sequence)
  | addScene {m : Scene} {l : ListEditor SceneNode} {n : Nat} {e : Edited (ListEditor SceneNode)}
    (h : l.append m = .ok e) :
    Succeeds (.append (.scene m)) .act ⟨l, n⟩
      (e.into (ActNode.mk · n) fun o => Site.announce o .act)

namespace Action

theorem converted_eq_ok {α : Type} {c : Component} {m : Option α} {r : α}
    (h : converted c m = .ok r) : m = some r := by
  cases m with
  | none => cases h
  | some r' =>
    cases h
    rfl

theorem setText_succeeds {f : Family} {text : String} {p : Node f} {e : Edited (Node f)}
    (h : (setText text).on (.node f) p = .ok e) : (setText text).Succeeds (.node f) p e := by
  cases p with
  | number field n =>
    obtain ⟨e', hset, h⟩ := bind_eq_ok (mapError_eq_ok h)
    cases h
    exact .setNumber hset
  | text field n =>
    obtain ⟨e', hset, h⟩ := bind_eq_ok (mapError_eq_ok h)
    cases h
    exact .setText hset
  | url field n =>
    obtain ⟨e', hset, h⟩ := bind_eq_ok (mapError_eq_ok h)
    cases h
    exact .setUrl hset
  | operation | title | random | related => cases h

theorem selectVariable_succeeds {name : String} {p : StatementNode} {e : Edited StatementNode}
    (h : p.selectVariable name = .ok e) : (selectVariable name).Succeeds .statement p e := by
  cases p with
  | get v n =>
    obtain ⟨e', hselect, h⟩ := bind_eq_ok h
    cases h
    exact .selectGot hselect
  | set v value n =>
    obtain ⟨e', hselect, h⟩ := bind_eq_ok h
    cases h
    exact .selectSet hselect

theorem fillComponent_succeeds {f : Family} {c : Component} {slot : Slot f} {e : Edited (Slot f)}
    (h : slot.fillComponent c = .ok e) : (fillComponent c).Succeeds (.slot f) slot e := by
  unfold Slot.fillComponent at h
  cases hc : c.expr? f with
  | none =>
    rw [hc] at h
    cases h
  | some new =>
    rw [hc] at h
    cases Component.eq_of_expr? hc
    exact .fillComponent h

theorem append_succeeds {c : Component} {p : s.Part} {e : Edited s.Part}
    (h : (append c).on s p = .ok e) : (append c).Succeeds s p e := by
  cases s with
  | commands =>
    obtain ⟨m, hm, h⟩ := bind_eq_ok h
    have happend := mapError_eq_ok h
    cases Component.eq_of_statement? (converted_eq_ok hm)
    exact .appendStatement happend
  | scenes =>
    obtain ⟨m, hm, h⟩ := bind_eq_ok h
    have happend := mapError_eq_ok h
    cases Component.eq_of_scene? (converted_eq_ok hm)
    exact .appendScene happend
  | sequence =>
    obtain ⟨m, hm, h⟩ := bind_eq_ok h
    obtain ⟨e', happend, h⟩ := bind_eq_ok (mapError_eq_ok h)
    cases h
    cases Component.eq_of_statement? (converted_eq_ok hm)
    exact .addCommand happend
  | act =>
    obtain ⟨m, hm, h⟩ := bind_eq_ok h
    obtain ⟨e', happend, h⟩ := bind_eq_ok (mapError_eq_ok h)
    cases h
    cases Component.eq_of_scene? (converted_eq_ok hm)
    exact .addScene happend
  | slot | node | statement | scene => cases h

theorem appendComponent_succeeds {c : Component} {p : s.Part} {e : Edited s.Part}
    (h : (appendComponent c).on s p = .ok e) : (appendComponent c).Succeeds s p e := by
  cases s with
  | commands =>
    cases c with
    | statement m => exact .appendStatementComponent (mapError_eq_ok h)
    | expr | scene | sequence | act => cases h
  | scenes =>
    cases c with
    | scene m => exact .appendSceneComponent (mapError_eq_ok h)
    | expr | statement | sequence | act => cases h
  | slot | node | statement | sequence | scene | act => cases h

/-- There is no other way to succeed. -/
theorem succeeds {x : Action} {p : s.Part} {e : Edited s.Part} (h : x.on s p = .ok e) :
    x.Succeeds s p e := by
  cases x with
  | setText text =>
    cases s with
    | node f => exact setText_succeeds h
    | _ => cases h
  | setOperator symbol =>
    cases s with
    | node f =>
      cases p with
      | operation o x y n =>
        obtain ⟨e', hselect, h⟩ := bind_eq_ok (mapError_eq_ok h)
        cases h
        exact .setOperator hselect
      | number | text | title | url | random | related => cases h
    | _ => cases h
  | selectVariable name =>
    cases s with
    | statement => exact selectVariable_succeeds (mapError_eq_ok h)
    | _ => cases h
  | setTitle text =>
    cases s with
    | scene =>
      obtain ⟨e', hset, h⟩ := bind_eq_ok (mapError_eq_ok h)
      cases h
      exact .setTitle hset
    | _ => cases h
  | setComment text =>
    cases s with
    | scene =>
      obtain ⟨e', hset, h⟩ := bind_eq_ok (mapError_eq_ok h)
      cases h
      exact .setComment hset
    | _ => cases h
  | fill c =>
    cases s with
    | slot f =>
      obtain ⟨new, hnew, h⟩ := bind_eq_ok h
      have hfill := mapError_eq_ok h
      cases Component.eq_of_expr? (converted_eq_ok hnew)
      exact .fill hfill
    | _ => cases h
  | fillComponent c =>
    cases s with
    | slot f => exact fillComponent_succeeds (mapError_eq_ok h)
    | _ => cases h
  | clear =>
    cases s with
    | slot f =>
      cases p with
      | empty frame => cases h
      | full frame node =>
        cases h
        exact .clear
    | _ => cases h
  | append c => exact append_succeeds h
  | appendComponent c => exact appendComponent_succeeds h

end Action

/-! ## What a target takes -/

/-- The action by which a target takes a component. -/
def Target.taking (t : Target) (c : Component) : Action :=
  match t with
  | slot _ => .fillComponent c
  | commands | scenes => .appendComponent c

theorem Target.accept_eq (t : Target) (part : t.Part) (c : Component) :
    Action.lift (t.accept part c) = (t.taking c).on t.site part := by
  cases t <;> rfl

theorem Target.accept_succeeds {t : Target} {part : t.Part} {c : Component} {e : Edited t.Part}
    (h : t.accept part c = .ok e) : (t.taking c).Succeeds t.site part e :=
  Action.succeeds ((t.accept_eq part c).symm.trans (congrArg Action.lift h))

end SceneScript
