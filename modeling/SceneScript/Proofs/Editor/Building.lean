import SceneScript.Editor.Build
import SceneScript.Proofs.Editor.Notifiers
import SceneScript.Proofs.Editor.Places

/-! Building a tree and deriving its script undo each other. Nothing but a gap at the root and a
name that is no variable keeps a component from being built, and of several such names the first
in the order of construction is the one reported. -/

namespace SceneScript

/-! ## The variables of a script -/

def Statement.variable : Statement → String
  | .get name => name
  | .set name _ => name

def CommandSequence.variables (s : CommandSequence) : List String :=
  s.commands.map Statement.variable

/-- The commands before a scene are constructed before those after it. -/
def Scene.variables (s : Scene) : List String :=
  s.preCommands.variables ++ s.postCommands.variables

def Act.variables (a : Act) : List String := a.scenes.flatMap Scene.variables

/-- The names in the statements of a component, in the order of construction. -/
def Component.variables : Component → List String
  | expr _ => []
  | statement s => [s.variable]
  | scene s => s.variables
  | sequence s => s.variables
  | act a => a.variables

/-! ## Failing at the first unknown name -/

/-- A construction that meets the names in this order, and fails at the first unknown one. -/
def BuildsWith {α : Type} (names : List String) (x : Except EditorError α) : Prop :=
  match names.find? (· ∉ variableNames) with
  | none => ∃ a, x = .ok a
  | some name => x = .error (.unknownVariable name)

namespace BuildsWith

variable {α β : Type}

theorem ok (a : α) : BuildsWith [] (.ok a) := ⟨a, rfl⟩

theorem bind {xs ys : List String} {x : Except EditorError α} {f : α → Except EditorError β}
    (hx : BuildsWith xs x) (hf : ∀ a, BuildsWith ys (f a)) : BuildsWith (xs ++ ys) (x >>= f) := by
  unfold BuildsWith at hx ⊢
  rw [List.find?_append]
  cases hfind : xs.find? (· ∉ variableNames) with
  | none =>
    rw [hfind] at hx
    obtain ⟨a, rfl⟩ := hx
    exact hf a
  | some name =>
    rw [hfind] at hx
    cases hx
    rfl

theorem map {xs : List String} {x : Except EditorError α} {f : α → β} (hx : BuildsWith xs x) :
    BuildsWith xs (x >>= fun a => .ok (f a)) := by
  have hbind := hx.bind fun a => ok (f a)
  rwa [List.append_nil] at hbind

theorem of_buildAll {γ : Type} {build : γ → Except EditorError α} {names : γ → List String}
    (h : ∀ c, BuildsWith (names c) (build c)) : ∀ cs : List γ,
    BuildsWith (cs.flatMap names) (buildAll build cs)
  | [] => ok []
  | c :: cs => (h c).bind fun _ => (of_buildAll h cs).map

end BuildsWith

theorem VariableChoice.buildsWith (name : String) :
    BuildsWith [name] (VariableChoice.of name) := by
  unfold BuildsWith VariableChoice.of Choice.of?
  by_cases h : name ∈ variableNames
  · have hfind : [name].find? (· ∉ variableNames) = none := by simp [h]
    obtain ⟨i, hi⟩ := Option.isSome_iff_exists.mp
      (List.isSome_finIdxOf?.trans (List.contains_iff_mem.mpr h))
    rw [hfind, hi]
    exact ⟨_, rfl⟩
  · have hfind : [name].find? (· ∉ variableNames) = some name := by simp [h]
    rw [hfind, List.finIdxOf?_eq_none_iff.mpr h]
    rfl

theorem Slot.buildsWith {f : Family} (e : Expr f) : BuildsWith [] (Slot.new e) :=
  ⟨_, Slot.new_eq e⟩

theorem StatementNode.buildsWith_new : ∀ s : Statement,
    BuildsWith [s.variable] (StatementNode.new s)
  | .get name => (VariableChoice.buildsWith name).map
  | .set name value => (VariableChoice.buildsWith name).bind fun _ => (Slot.buildsWith value).map

theorem SequenceNode.buildsWith (s : CommandSequence) :
    BuildsWith s.variables (SequenceNode.build s) := by
  have hitems := BuildsWith.of_buildAll (fun c => StatementNode.build_eq c ▸
    StatementNode.buildsWith_new c) s.commands
  rw [← List.map_eq_flatMap] at hitems
  exact hitems.map

theorem SceneFrame.buildsWith (title comment : String) (duration : Expr .number)
    (pre post : CommandSequence) : BuildsWith (pre.variables ++ post.variables)
      (SceneFrame.new title comment duration pre post) :=
  (Slot.buildsWith duration).bind fun _ =>
    (SequenceNode.buildsWith pre).bind fun _ => (SequenceNode.buildsWith post).map

theorem SceneNode.buildsWith_new : ∀ s : Scene, BuildsWith s.variables (SceneNode.new s)
  | .text s => by
    have hframe := SceneFrame.buildsWith s.title s.comment s.duration s.preCommands s.postCommands
    have hscene := hframe.bind fun frame => (Slot.buildsWith s.text).map (f := SceneNode.text frame)
    rwa [List.append_nil] at hscene
  | .video s => by
    have hframe := SceneFrame.buildsWith s.title s.comment s.duration s.preCommands s.postCommands
    have hscene := hframe.bind fun frame => (Slot.buildsWith s.source).bind fun source =>
      (Slot.buildsWith s.offset).map (f := SceneNode.video frame source)
    rwa [List.append_nil, List.append_nil] at hscene

theorem ActNode.buildsWith (a : Act) : BuildsWith a.variables (ActNode.build a) :=
  (BuildsWith.of_buildAll (fun s => SceneNode.build_eq s ▸ SceneNode.buildsWith_new s)
    a.scenes).map

theorem Component.buildsWith {c : Component} (h : c.isGap = false) :
    BuildsWith c.variables c.build := by
  rw [build, Registry.build_of_shown c _ h]
  cases c with
  | expr e =>
    obtain ⟨node, hnode⟩ := Node.new_of_shown ((Component.isGap_expr e).symm.trans h)
    simp only [construct, hnode]
    exact BuildsWith.ok _
  | statement s => exact (StatementNode.buildsWith_new s).map
  | scene s => exact (SceneNode.buildsWith_new s).map
  | sequence s => exact (SequenceNode.buildsWith s).map
  | act a => exact (ActNode.buildsWith a).map

/-! ## The script of what was built -/

/-- The category of a part; a slot or a list is not of any. -/
def Site.category? : Site → Option Category
  | node f => some (.expr f)
  | statement => some .statement
  | scene => some .scene
  | sequence => some .sequence
  | act => some .act
  | slot _ | commands | scenes => none

theorem AnyPart.Built.component? {c : Component} {tree : AnyPart} (h : tree.Built c) :
    tree.site.component? tree.part = some c ∧ tree.site.category? = some c.category := by
  cases h with
  | @expr _ e _ hnode =>
    have hmodel := Slot.model_ofExpr e
    rw [hnode] at hmodel
    exact ⟨congrArg (some ∘ Component.expr) hmodel, rfl⟩
  | statement hnode => exact ⟨congrArg (some ∘ Component.statement) hnode.model, rfl⟩
  | scene hnode => exact ⟨congrArg (some ∘ Component.scene) hnode.model, rfl⟩
  | sequence hnode => exact ⟨congrArg (some ∘ Component.sequence) hnode.model, rfl⟩
  | act hnode => exact ⟨congrArg (some ∘ Component.act) hnode.model, rfl⟩

/-! ## Silence -/

theorem Slot.silent_ofExpr {f : Family} (e : Expr f) : (Slot.ofExpr e).reports.Silent := by
  induction e with
  | gap => exact Reports.silent_leaf
  | number _ | text _ | url _ =>
    exact .mk (by simp [Node.reports, Reports.silent_leaf])
  | operation o a b iha ihb =>
    refine .mk ?_
    simp only [List.mem_singleton, forall_eq, Node.reports]
    exact .mk (by simp [iha, ihb])
  | titleOf v ih | relatedTo v ih =>
    refine .mk ?_
    simp only [List.mem_singleton, forall_eq, Node.reports]
    exact .mk (by simp [ih])
  | randomFrom c ih =>
    refine .mk ?_
    simp only [List.mem_singleton, forall_eq, Node.reports]
    exact .mk (by simp [ih])

theorem StatementNode.Built.silent {s : Statement} {n : StatementNode} (h : n.Built s) :
    n.reports.Silent := by
  cases h with
  | get => exact Reports.silent_leaf
  | set _ value => exact .mk (by simp [Slot.silent_ofExpr])

theorem SequenceNode.Built.silent {s : CommandSequence} {n : SequenceNode} (h : n.Built s) :
    n.reports.Silent := by
  cases h with
  | mk hitems =>
    refine .mk (List.forall_mem_map.mpr fun n hn => ?_)
    obtain ⟨_, hbuilt⟩ := built_of_mem hitems n hn
    exact hbuilt.silent

theorem SceneNode.Built.silent {s : Scene} {n : SceneNode} (h : n.Built s) : n.reports.Silent := by
  cases h with
  | text hpre hpost | video hpre hpost =>
    exact .mk (by simp [Slot.silent_ofExpr, hpre.silent, hpost.silent])

theorem ActNode.Built.silent {a : Act} {n : ActNode} (h : n.Built a) : n.reports.Silent := by
  cases h with
  | mk hitems =>
    refine .mk (List.forall_mem_singleton.mpr ?_)
    refine .mk (List.forall_mem_map.mpr fun n hn => ?_)
    obtain ⟨_, hbuilt⟩ := built_of_mem hitems n hn
    exact hbuilt.silent

theorem AnyPart.Built.silent {c : Component} {tree : AnyPart} (h : tree.Built c) :
    (tree.site.reports tree.part).Silent := by
  cases h with
  | @expr _ e _ hnode =>
    cases hnode ▸ Slot.silent_ofExpr e with
    | mk hbelow => exact hbelow _ (List.mem_singleton_self _)
  | statement hnode => exact hnode.silent
  | scene hnode => exact hnode.silent
  | sequence hnode => exact hnode.silent
  | act hnode => exact hnode.silent

/-! ## Building and deriving -/

theorem Component.build_gap {c : Component} (h : c.isGap = true) :
    c.build = .error (.unsupported c.kind) := by
  cases c with
  | @expr f e =>
    cases e with
    | gap => exact Registry.build_gap f _
    | _ => cases h
  | statement s => cases s <;> cases h
  | scene s => cases s <;> cases h
  | sequence s => cases h
  | act a => cases h

theorem Component.construct_of_build {c : Component} {p : AnyPart} (h : c.build = .ok p) :
    c.isGap = false ∧ c.construct = .ok p := by
  cases hgap : c.isGap with
  | true =>
    rw [Component.build_gap hgap] at h
    cases h
  | false => exact ⟨rfl, (Registry.build_of_shown c _ hgap).symm.trans h⟩

/-- A component is built exactly if it is no gap and its statements name variables only. The tree
then has the component for its script and its category for its own, and hangs below any owner
without a change to what was there and without having announced anything. Otherwise the gap is
reported, or the first name that is no variable. -/
theorem Component.build_exact (c : Component) :
    ((∃ p, c.build = .ok p) ↔ c.isGap = false ∧ ∀ name ∈ c.variables, name ∈ variableNames) ∧
    (∀ p, c.build = .ok p →
      p.site.component? p.part = some c ∧ p.site.category? = some c.category ∧
        (p.site.reports p.part).Silent ∧
        ∀ (f : Forest) (owner : Nat), owner < f.size →
          f.Grows owner (f.attach owner (p.site.reports p.part))) ∧
    (∀ e, c.build = .error e →
      (c.isGap = true ∧ e = .unsupported c.kind) ∨
      (c.isGap = false ∧ ∃ name, c.variables.find? (· ∉ variableNames) = some name ∧
        e = .unknownVariable name)) := by
  refine ⟨⟨?_, ?_⟩, fun p h => ?_, fun e h => ?_⟩
  · rintro ⟨p, h⟩
    obtain ⟨hgap, -⟩ := construct_of_build h
    refine ⟨hgap, fun name hname => ?_⟩
    have hbuilds := buildsWith hgap
    unfold BuildsWith at hbuilds
    cases hfind : c.variables.find? (· ∉ variableNames) with
    | none => simpa using List.find?_eq_none.mp hfind name hname
    | some first =>
      rw [hfind, h] at hbuilds
      cases hbuilds
  · rintro ⟨hgap, hnames⟩
    have hbuilds := buildsWith hgap
    have hfind : c.variables.find? (· ∉ variableNames) = none :=
      List.find?_eq_none.mpr fun name hname => by simp [hnames name hname]
    unfold BuildsWith at hbuilds
    rwa [hfind] at hbuilds
  · obtain ⟨-, hconstruct⟩ := construct_of_build h
    have hbuilt := built_of_construct hconstruct
    obtain ⟨hmodel, hcategory⟩ := hbuilt.component?
    exact ⟨hmodel, hcategory, hbuilt.silent, fun f owner howner =>
      Forest.attach_grows hbuilt.silent howner⟩
  · cases hgap : c.isGap with
    | true =>
      rw [build_gap hgap] at h
      cases h
      exact .inl ⟨rfl, rfl⟩
    | false =>
      have hbuilds := buildsWith hgap
      unfold BuildsWith at hbuilds
      cases hfind : c.variables.find? (· ∉ variableNames) with
      | none =>
        rw [hfind, h] at hbuilds
        obtain ⟨p, hp⟩ := hbuilds
        cases hp
      | some name =>
        rw [hfind, h] at hbuilds
        cases hbuilds
        exact .inr ⟨rfl, name, rfl, rfl⟩

end SceneScript
