import Mathlib.Data.List.Forall2
import SceneScript.Editor.Build
import SceneScript.Proofs.Outcome

/-! What is built from a script. A slot can always be built, and nothing else that is built can look
in more than one way: it shows the script, has the controls of new parts, and is not read-only. What
is to be said of new trees is said of these. -/

namespace SceneScript

/-! ## The registry -/

/-- Every kind that is not a gap is in the registry, under the category of its components. -/
theorem Registry.build_of_shown {α : Type} (c : Component) (construct : Except EditorError α)
    (h : c.isGap = false) : Registry.build c.category c.kind construct = construct := by
  cases c with
  | expr e =>
    cases e with
    | gap => cases h
    | operation o a b => cases o <;> rfl
    | _ => rfl
  | statement s => cases s <;> rfl
  | scene s => cases s <;> rfl
  | sequence s => rfl
  | act a => rfl

theorem Registry.build_gap {α : Type} (f : Family) (construct : Except EditorError α) :
    Registry.build (.expr f) (.gap f) construct = .error (.unsupported (.gap f)) := by
  cases f <;> rfl

theorem StatementNode.build_eq (s : Statement) : StatementNode.build s = StatementNode.new s :=
  Registry.build_of_shown (.statement s) _ (by cases s <;> rfl)

theorem SceneNode.build_eq (s : Scene) : SceneNode.build s = SceneNode.new s :=
  Registry.build_of_shown (.scene s) _ (by cases s <;> rfl)

/-! ## Expressions -/

theorem Component.isGap_expr {f : Family} (e : Expr f) : (Component.expr e).isGap = e.isGap := by
  cases e <;> rfl

theorem OperatorChoice.of_eq (o : Operator) : OperatorChoice.of o = .ok (.showing o) := by
  cases o <;> rfl

/-- A slot holds what the constructor makes of an expression that is no gap. -/
theorem Slot.new_of_node {f : Family} {e : Expr f} {node : Node f} (hgap : e.isGap = false)
    (h : Node.new e = .ok node) : Slot.new e = .ok (.full .new node) := by
  have hbuild : Registry.build (.expr f) e.kind (Node.new e) = Node.new e :=
    Registry.build_of_shown (.expr e) (Node.new e) ((Component.isGap_expr e).trans hgap)
  unfold Slot.new Slot.around
  rw [hgap, hbuild, h]
  rfl

/-- A slot can always be built. -/
theorem Slot.new_eq {f : Family} (e : Expr f) : Slot.new e = .ok (.ofExpr e) := by
  induction e with
  | gap | number _ | text _ | url _ => rfl
  | operation o a b iha ihb =>
    refine Slot.new_of_node rfl ?_
    change (Slot.new a >>= fun op1 => Slot.new b >>= fun op2 => OperatorChoice.of o >>= fun c =>
      .ok (Node.operation c op1 op2 0)) = _
    rw [iha, ihb, OperatorChoice.of_eq]
    rfl
  | titleOf v ih =>
    refine Slot.new_of_node rfl ?_
    change (Slot.new v >>= fun video => .ok (Node.title video 0)) = _
    rw [ih]
    rfl
  | randomFrom c ih =>
    refine Slot.new_of_node rfl ?_
    change (Slot.new c >>= fun collection => .ok (Node.random collection 0)) = _
    rw [ih]
    rfl
  | relatedTo v ih =>
    refine Slot.new_of_node rfl ?_
    change (Slot.new v >>= fun video => .ok (Node.related video 0)) = _
    rw [ih]
    rfl

theorem Node.new_of_shown {f : Family} {e : Expr f} (h : e.isGap = false) :
    ∃ node, Node.new e = .ok node := by
  have hslot := Slot.new_eq e
  unfold Slot.new Slot.around at hslot
  rw [h] at hslot
  obtain ⟨node, hnode, -⟩ := bind_eq_ok hslot
  have hshown := (Component.isGap_expr e).trans h
  exact ⟨node, (Registry.build_of_shown (.expr e) (Node.new e) hshown).symm.trans hnode⟩

/-- What the constructor of an expression makes is what its slot holds. -/
theorem Slot.ofExpr_of_node {f : Family} {e : Expr f} {node : Node f} (h : Node.new e = .ok node) :
    Slot.ofExpr e = .full .new node := by
  have hgap : e.isGap = false := by
    cases e with
    | gap => cases h
    | _ => rfl
  exact Except.ok.inj ((Slot.new_eq e).symm.trans (Slot.new_of_node hgap h))

theorem VariableChoice.of_eq_ok {name : String} {c : VariableChoice}
    (h : VariableChoice.of name = .ok c) : c.selected = name ∧ c.readOnly = false := by
  unfold VariableChoice.of Choice.of? at h
  cases hi : variableNames.finIdxOf? name with
  | none =>
    rw [hi] at h
    cases h
  | some i =>
    rw [hi] at h
    cases h
    exact ⟨(List.finIdxOf?_eq_some_iff.mp hi).1, rfl⟩

/-! ## Trees -/

inductive StatementNode.Built : Statement → StatementNode → Prop
  | get {c : VariableChoice} (h : c.readOnly = false) : Built (.get c.selected) (get c 0)
  | set {c : VariableChoice} (h : c.readOnly = false) (value : Expr .number) :
    Built (.set c.selected value) (set c (.ofExpr value) 0)

inductive SequenceNode.Built : CommandSequence → SequenceNode → Prop
  | mk {commands : List Statement} {items : List StatementNode}
    (h : List.Forall₂ StatementNode.Built commands items) : Built ⟨commands⟩ ⟨⟨items, .new⟩⟩

inductive SceneNode.Built : Scene → SceneNode → Prop
  | text {s : TextScene} {pre post : SequenceNode} (hpre : pre.Built s.preCommands)
    (hpost : post.Built s.postCommands) :
    Built (.text s) (text ⟨.new s.title s.comment, .ofExpr s.duration, pre, post, 0⟩ (.ofExpr s.text))
  | video {s : VideoScene} {pre post : SequenceNode} (hpre : pre.Built s.preCommands)
    (hpost : post.Built s.postCommands) :
    Built (.video s) (video ⟨.new s.title s.comment, .ofExpr s.duration, pre, post, 0⟩
      (.ofExpr s.source) (.ofExpr s.offset))

inductive ActNode.Built : Act → ActNode → Prop
  | mk {scenes : List Scene} {items : List SceneNode}
    (h : List.Forall₂ SceneNode.Built scenes items) : Built ⟨scenes⟩ ⟨⟨items, .new⟩, 0⟩

/-- A tree of a component. -/
inductive AnyPart.Built : Component → AnyPart → Prop
  | expr {f : Family} {e : Expr f} {n : Node f} (h : Slot.ofExpr e = .full .new n) :
    Built (.expr e) ⟨.node f, n⟩
  | statement {s : Statement} {n : StatementNode} (h : n.Built s) :
    Built (.statement s) ⟨.statement, n⟩
  | scene {s : Scene} {n : SceneNode} (h : n.Built s) : Built (.scene s) ⟨.scene, n⟩
  | sequence {s : CommandSequence} {n : SequenceNode} (h : n.Built s) :
    Built (.sequence s) ⟨.sequence, n⟩
  | act {a : Act} {n : ActNode} (h : n.Built a) : Built (.act a) ⟨.act, n⟩

/-! ## Construction -/

theorem forall₂_of_buildAll {α β : Type} {build : α → Except EditorError β} {Built : α → β → Prop}
    (h : ∀ {a b}, build a = .ok b → Built a b) : ∀ {as : List α} {bs : List β},
    buildAll build as = .ok bs → List.Forall₂ Built as bs
  | [], bs, hbs => by
    cases hbs
    exact .nil
  | a :: as, bs, hbs => by
    obtain ⟨b, hb, hbs⟩ := bind_eq_ok hbs
    obtain ⟨bs', hbs', hbs⟩ := bind_eq_ok hbs
    cases hbs
    exact .cons (h hb) (forall₂_of_buildAll h hbs')

theorem built_of_mem {α β : Type} {Built : α → β → Prop} {as : List α} {bs : List β}
    (h : List.Forall₂ Built as bs) : ∀ b ∈ bs, ∃ a, Built a b := by
  induction h with
  | nil => exact List.forall_mem_nil _
  | cons hb _ ih => exact List.forall_mem_cons.mpr ⟨⟨_, hb⟩, ih⟩

theorem StatementNode.built_of_new {s : Statement} {n : StatementNode}
    (h : StatementNode.new s = .ok n) : n.Built s := by
  cases s with
  | get name =>
    obtain ⟨c, hc, h⟩ := bind_eq_ok h
    cases h
    obtain ⟨rfl, hr⟩ := VariableChoice.of_eq_ok hc
    exact .get hr
  | set name value =>
    obtain ⟨c, hc, h⟩ := bind_eq_ok h
    rw [Slot.new_eq] at h
    cases h
    obtain ⟨rfl, hr⟩ := VariableChoice.of_eq_ok hc
    exact .set hr value

theorem StatementNode.built_of_build {s : Statement} {n : StatementNode}
    (h : StatementNode.build s = .ok n) : n.Built s :=
  built_of_new ((build_eq s).symm.trans h)

theorem SequenceNode.built_of_build {s : CommandSequence} {n : SequenceNode}
    (h : SequenceNode.build s = .ok n) : n.Built s := by
  obtain ⟨items, hitems, h⟩ := bind_eq_ok h
  cases h
  exact .mk (forall₂_of_buildAll StatementNode.built_of_build hitems)

theorem SceneFrame.eq_of_new {title comment : String} {duration : Expr .number}
    {pre post : CommandSequence} {f : SceneFrame}
    (h : SceneFrame.new title comment duration pre post = .ok f) :
    ∃ before behind, before.Built pre ∧ behind.Built post ∧
      f = ⟨.new title comment, .ofExpr duration, before, behind, 0⟩ := by
  unfold SceneFrame.new at h
  rw [Slot.new_eq, bind_ok] at h
  obtain ⟨before, hbefore, h⟩ := bind_eq_ok h
  obtain ⟨behind, hbehind, h⟩ := bind_eq_ok h
  cases h
  exact ⟨before, behind, SequenceNode.built_of_build hbefore,
    SequenceNode.built_of_build hbehind, rfl⟩

theorem SceneNode.built_of_new {s : Scene} {n : SceneNode} (h : SceneNode.new s = .ok n) :
    n.Built s := by
  cases s with
  | text s =>
    obtain ⟨f, hf, h⟩ := bind_eq_ok h
    rw [Slot.new_eq] at h
    cases h
    obtain ⟨pre, post, hpre, hpost, rfl⟩ := SceneFrame.eq_of_new hf
    exact .text hpre hpost
  | video s =>
    obtain ⟨f, hf, h⟩ := bind_eq_ok h
    rw [Slot.new_eq, Slot.new_eq] at h
    cases h
    obtain ⟨pre, post, hpre, hpost, rfl⟩ := SceneFrame.eq_of_new hf
    exact .video hpre hpost

theorem SceneNode.built_of_build {s : Scene} {n : SceneNode} (h : SceneNode.build s = .ok n) :
    n.Built s :=
  built_of_new ((build_eq s).symm.trans h)

theorem ActNode.built_of_build {a : Act} {n : ActNode} (h : ActNode.build a = .ok n) :
    n.Built a := by
  obtain ⟨items, hitems, h⟩ := bind_eq_ok h
  cases h
  exact .mk (forall₂_of_buildAll SceneNode.built_of_build hitems)

theorem Component.built_of_construct {c : Component} {tree : AnyPart}
    (h : c.construct = .ok tree) : tree.Built c := by
  cases c with
  | expr e =>
    obtain ⟨node, hnode, h⟩ := bind_eq_ok h
    cases h
    exact .expr (Slot.ofExpr_of_node hnode)
  | statement s =>
    obtain ⟨node, hnode, h⟩ := bind_eq_ok h
    cases h
    exact .statement (StatementNode.built_of_new hnode)
  | scene s =>
    obtain ⟨node, hnode, h⟩ := bind_eq_ok h
    cases h
    exact .scene (SceneNode.built_of_new hnode)
  | sequence s =>
    obtain ⟨node, hnode, h⟩ := bind_eq_ok h
    cases h
    exact .sequence (SequenceNode.built_of_build hnode)
  | act a =>
    obtain ⟨node, hnode, h⟩ := bind_eq_ok h
    cases h
    exact .act (ActNode.built_of_build hnode)

end SceneScript
