import SceneScript.Proofs.Editor.Building
import SceneScript.Proofs.Editor.Recounting
import SceneScript.Proofs.Notify.Counting

/-! Trees with their notifiers. Each constructor makes a notifier below that of the owner it is
given, and hands it to everything inside as theirs; where a part keeps the count of its changes, the
number of its notifier is kept. Read with the counts of these notifiers, what is made is what the
constructors of trees make. -/

namespace SceneScript

/-- A construction that makes notifiers as it goes. -/
abbrev Wiring (α : Type) := StateT Forest (Except EditorError) α

namespace Wiring

/-- A new notifier below another. -/
def child (owner : Nat) : Wiring Nat := fun f => .ok (f.size, f.addChild owner)

def build {α : Type} (category : Category) (k : Kind) (construct : Wiring α) : Wiring α :=
  fun f => Registry.build category k (construct f)

end Wiring

open Wiring (child)

/-! ## Constructors -/

def Frame.wired (n : Nat) : Frame := { Frame.new with emitted := n }

/-- A slot with a frame, and what shows an expression in it; a gap leaves it empty. -/
def Slot.occupied {f : Family} (frame : Frame) (e : Expr f) (node : Wiring (Node f)) :
    Wiring (Slot f) :=
  if e.isGap then pure (.empty frame)
  else do return .full frame (← Wiring.build (.expr f) e.kind node)

def Slot.wireAround {f : Family} (e : Expr f) (node : Nat → Wiring (Node f)) (owner : Nat) :
    Wiring (Slot f) := do
  let n ← child owner
  occupied (.wired n) e (node n)

def Node.wire : {f : Family} → Expr f → Nat → Wiring (Node f)
  | f, .gap, _ => throw (.unsupported (.gap f))
  | _, .number x, owner => do return .number (.new x) (← child owner)
  | _, .operation o a b, owner => do
    let n ← child owner
    let op1 ← Slot.wireAround a (wire a) n
    let op2 ← Slot.wireAround b (wire b) n
    return .operation (← OperatorChoice.of o) op1 op2 n
  | _, .text s, owner => do return .text (.new s) (← child owner)
  | _, .titleOf v, owner => do
    let n ← child owner
    return .title (← Slot.wireAround v (wire v) n) n
  | _, .url s, owner => do return .url (.new s) (← child owner)
  | _, .randomFrom c, owner => do
    let n ← child owner
    return .random (← Slot.wireAround c (wire c) n) n
  | _, .relatedTo v, owner => do
    let n ← child owner
    return .related (← Slot.wireAround v (wire v) n) n

def Slot.wire {f : Family} (e : Expr f) : Nat → Wiring (Slot f) := wireAround e (Node.wire e)

def StatementNode.wire : Statement → Nat → Wiring StatementNode
  | .get name, owner => do
    let n ← child owner
    return .get (← VariableChoice.of name) n
  | .set name value, owner => do
    let n ← child owner
    let name ← VariableChoice.of name
    return .set name (← Slot.wire value n) n

def StatementNode.wireBuild (s : Statement) (owner : Nat) : Wiring StatementNode :=
  Wiring.build .statement (Component.statement s).kind (wire s owner)

def wireAll {α β : Type} (wire : α → Wiring β) : List α → Wiring (List β)
  | [] => pure []
  | a :: as => do
    let b ← wire a
    return b :: (← wireAll wire as)

def ListEditor.wire {α β : Type} (wire : α → Nat → Wiring β) (as : List α) (owner : Nat) :
    Wiring (ListEditor β) := do
  let n ← child owner
  return ⟨← wireAll (wire · n) as, .wired n⟩

/-- A command sequence has no notifier but that of its list. -/
def SequenceNode.wire (s : CommandSequence) (owner : Nat) : Wiring SequenceNode := do
  return ⟨← ListEditor.wire StatementNode.wireBuild s.commands owner⟩

/-- What text and video scenes have in common reports to the scene itself. -/
def SceneFrame.wire (title comment : String) (duration : Expr .number)
    (preCommands postCommands : CommandSequence) (n : Nat) : Wiring SceneFrame := do
  let duration ← Slot.wire duration n
  let preCommands ← SequenceNode.wire preCommands n
  let postCommands ← SequenceNode.wire postCommands n
  return ⟨.new title comment, duration, preCommands, postCommands, n⟩

def SceneNode.wire : Scene → Nat → Wiring SceneNode
  | .text s, owner => do
    let n ← child owner
    let frame ← SceneFrame.wire s.title s.comment s.duration s.preCommands s.postCommands n
    return .text frame (← Slot.wire s.text n)
  | .video s, owner => do
    let n ← child owner
    let frame ← SceneFrame.wire s.title s.comment s.duration s.preCommands s.postCommands n
    let source ← Slot.wire s.source n
    return .video frame source (← Slot.wire s.offset n)

def SceneNode.wireBuild (s : Scene) (owner : Nat) : Wiring SceneNode :=
  Wiring.build .scene (Component.scene s).kind (wire s owner)

def ActNode.wire (a : Act) (owner : Nat) : Wiring ActNode := do
  let n ← child owner
  return ⟨← ListEditor.wire SceneNode.wireBuild a.scenes n, n⟩

def Component.wireConstruct (owner : Nat) : Component → Wiring AnyPart
  | expr (f := f) e => do return ⟨.node f, ← Node.wire e owner⟩
  | statement s => do return ⟨.statement, ← StatementNode.wire s owner⟩
  | scene s => do return ⟨.scene, ← SceneNode.wire s owner⟩
  | sequence s => do return ⟨.sequence, ← SequenceNode.wire s owner⟩
  | act a => do return ⟨.act, ← ActNode.wire a owner⟩

/-- Builds the tree of a component with its notifiers below that of the owner. -/
def Component.wire (c : Component) (owner : Nat) : Wiring AnyPart :=
  Wiring.build c.category c.kind (c.wireConstruct owner)

/-! ## Links to the owner -/

/-- Each number is that of a notifier directly below the one around it. -/
inductive Reports.Linked (f : Forest) : Nat → Reports → Prop
  | mk {owner n : Nat} {below : List Reports} (hchain : f.chain n = n :: f.chain owner)
    (hbelow : ∀ r ∈ below, Linked f n r) : Linked f owner (.mk n below)

theorem Forest.lt_size_of_chain {f : Forest} {n i : Nat} {is : List Nat}
    (h : f.chain n = i :: is) : n < f.size := by
  refine Nat.lt_of_not_le fun hsize => ?_
  rw [Forest.chain_of_size_le hsize] at h
  cases h

theorem Reports.Linked.mono {f g : Forest} (hchain : ∀ i < f.size, g.chain i = f.chain i)
    {owner : Nat} {r : Reports} (h : r.Linked f owner) (howner : owner < f.size) :
    r.Linked g owner := by
  induction h with
  | @mk owner n below hn _ ih =>
    have hsize : n < f.size := Forest.lt_size_of_chain hn
    refine .mk ?_ fun r hr => ih r hr hsize
    rw [hchain n hsize, hchain owner howner, hn]

/-- Parts were made below an owner, with new notifiers numbered in the order they were made. -/
structure Forest.Wired (start : Forest) (owner : Nat) (rs : List Reports) (f : Forest) : Prop where
  grows : start.Grows owner f
  linked : ∀ r ∈ rs, r.Linked f owner
  numbers : Reports.numbersAll rs = List.range' start.size (f.size - start.size)

namespace Forest.Wired

variable {start f g : Forest} {owner : Nat} {rs ts : List Reports}

theorem refl (f : Forest) (owner : Nat) : f.Wired owner [] f :=
  ⟨Grows.refl f owner, by simp, by simp [Reports.numbersAll]⟩

theorem append (howner : owner < start.size) (hf : start.Wired owner rs f)
    (hg : f.Wired owner ts g) : start.Wired owner (rs ++ ts) g where
  grows := hf.grows.trans hg.grows (hf.grows.chain_eq howner ▸ List.suffix_rfl)
  linked := by
    intro r hr
    rcases List.mem_append.mp hr with hr | hr
    · exact (hf.linked r hr).mono (fun i hi => hg.grows.chain_eq hi)
        (Nat.lt_of_lt_of_le howner hf.grows.size_le)
    · exact hg.linked r hr
  numbers := by
    have hstart := hf.grows.size_le
    have hsize := hg.grows.size_le
    have hf' : f.size = start.size + (f.size - start.size) := by omega
    have hg' : g.size - start.size = (f.size - start.size) + (g.size - f.size) := by omega
    rw [Reports.numbersAll_append, hf.numbers, hg.numbers, hg', ← List.range'_append_1, ← hf']

/-- What was made below a new notifier is one part below the owner of that. -/
theorem node (howner : owner < f.size) (h : (f.addChild owner).Wired f.size rs g) :
    f.Wired owner [.mk f.size rs] g := by
  obtain ⟨hgrows, hchain⟩ := addReporter_grows howner
  have hsize : (f.addChild owner).size = f.size + 1 := by
    simp [addChild, List.getElem?_eq_getElem howner, size]
  have hlater := h.grows.size_le
  refine ⟨hgrows.trans h.grows ?_, ?_, ?_⟩
  · exact hchain.symm ▸ List.suffix_cons _ _
  · simp only [List.mem_singleton, forall_eq]
    refine .mk ?_ h.linked
    rw [h.grows.chain_eq (by omega), h.grows.chain_eq (Nat.lt_of_lt_of_le howner hgrows.size_le)]
    exact hchain.trans (congrArg _ (hgrows.chain_eq howner).symm)
  · have hcount : g.size - f.size = (g.size - (f.addChild owner).size) + 1 := by omega
    simp only [Reports.numbersAll, Reports.numbers, List.append_nil]
    rw [h.numbers, hcount, List.range'_succ, hsize]

end Forest.Wired

/-! ## What a construction makes -/

namespace Wiring

variable {α β : Type} {owner : Nat} {rs : List Reports}

/-- Behind parts that were made below an owner, a construction makes more of them. Its result is
that of a construction of the tree alone once the numbers are erased; it fails as that one does. -/
def Yields (owner : Nat) (rs : List Reports) (erase : α → α) (P : α → List Reports → Prop)
    (x : Wiring α) (plain : Except EditorError α) : Prop :=
  ∀ start f : Forest, owner < start.size → start.Wired owner rs f →
    match plain with
    | .error e => x f = .error e
    | .ok a => ∃ a' g ts, x f = .ok (a', g) ∧ erase a' = a ∧ P a' ts ∧ start.Wired owner ts g

/-- A construction that makes one part below any owner. -/
def Makes (erase : α → α) (reports : α → Reports) (x : Nat → Wiring α)
    (plain : Except EditorError α) : Prop :=
  ∀ (f : Forest) (owner : Nat), owner < f.size →
    match plain with
    | .error e => x owner f = .error e
    | .ok a => ∃ a' g, x owner f = .ok (a', g) ∧ erase a' = a ∧ f.Wired owner [reports a'] g

theorem Yields.pure {erase : α → α} {P : α → List Reports → Prop} {a a' : α} (ha : erase a' = a)
    (hP : P a' rs) : Yields owner rs erase P (pure a') (.ok a) :=
  fun _ f _ hf => ⟨a', f, rs, rfl, ha, hP, hf⟩

theorem Yields.bind {erase : α → α} {erase' : β → β} {P : α → List Reports → Prop}
    {Q : β → List Reports → Prop} {x : Wiring α} {plain : Except EditorError α}
    {k : α → Wiring β} {plain' : α → Except EditorError β} (hx : Yields owner rs erase P x plain)
    (hk : ∀ a' ts, P a' ts → Yields owner ts erase' Q (k a') (plain' (erase a'))) :
    Yields owner rs erase' Q (x >>= k) (plain >>= plain') := by
  intro start f howner hf
  have hfirst := hx start f howner hf
  cases plain with
  | error e =>
    show (x f >>= fun r => k r.1 r.2) = .error e
    rw [hfirst]
    rfl
  | ok a =>
    obtain ⟨a', g, ts, hrun, rfl, hP, hg⟩ := hfirst
    have hrest := hk a' ts hP start g howner hg
    have hstep : (x >>= k) f = k a' g := by
      show (x f >>= fun r => k r.1 r.2) = k a' g
      rw [hrun]
      rfl
    show match plain' (erase a') with
      | .error e => (x >>= k) f = .error e
      | .ok b => ∃ b' g ts, (x >>= k) f = .ok (b', g) ∧ erase' b' = b ∧ Q b' ts ∧
          start.Wired owner ts g
    rw [hstep]
    exact hrest

/-- A construction that makes no notifier. -/
theorem Yields.lift (x : Except EditorError α) :
    Yields owner rs id (fun _ ts => ts = rs) (liftM x) x := by
  intro start f _ hf
  cases x with
  | error e => rfl
  | ok a => exact ⟨a, f, rs, rfl, rfl, rfl, hf⟩

theorem Makes.yields {erase : α → α} {reports : α → Reports} {x : Nat → Wiring α}
    {plain : Except EditorError α} (h : Makes erase reports x plain) :
    Yields owner rs erase (fun a ts => ts = rs ++ [reports a]) (x owner) plain := by
  intro start f howner hf
  have hx := h f owner (Nat.lt_of_lt_of_le howner hf.grows.size_le)
  cases plain with
  | error e => exact hx
  | ok a =>
    obtain ⟨a', g, hrun, ha, hg⟩ := hx
    exact ⟨a', g, _, hrun, ha, rfl, hf.append howner hg⟩

/-- A part with a notifier of its own, which those inside it are made below. -/
theorem Makes.node {erase : α → α} {reports : α → Reports} {k : Nat → Wiring α}
    {plain : Except EditorError α}
    (h : ∀ n, Yields n [] erase (fun a rs => reports a = .mk n rs) (k n) plain) :
    Makes erase reports (fun owner => child owner >>= k) plain := by
  intro f owner howner
  have hsize : f.size < (f.addChild owner).size := by
    simp [Forest.addChild, List.getElem?_eq_getElem howner, Forest.size]
  have hk := h f.size _ _ hsize (.refl _ _)
  cases plain with
  | error e => exact hk
  | ok a =>
    obtain ⟨a', g, rs, hrun, ha, hreports, hg⟩ := hk
    refine ⟨a', g, hrun, ha, ?_⟩
    rw [hreports]
    exact hg.node howner

theorem Makes.registered {erase : α → α} {reports : α → Reports} {x : Nat → Wiring α}
    {plain : Except EditorError α} (h : Makes erase reports x plain) (category : Category)
    (k : Kind) : Makes erase reports (fun owner => Wiring.build category k (x owner))
      (Registry.build category k plain) := by
  intro f owner howner
  have hx := h f owner howner
  unfold Wiring.build Registry.build
  cases Registry.builder? k with
  | none => rfl
  | some family =>
    by_cases hfamily : category = family
    · simpa only [if_pos hfamily] using hx
    · simp only [if_neg hfamily]

/-- The same part in a wrapping that has no notifier of its own. -/
theorem Makes.map {erase : α → α} {reports : α → Reports} {erase' : β → β} {reports' : β → Reports}
    {x : Nat → Wiring α} {plain : Except EditorError α} (h : Makes erase reports x plain)
    {k : α → β} (herase : ∀ a, erase' (k a) = k (erase a))
    (hreports : ∀ a, reports' (k a) = reports a) :
    Makes erase' reports' (fun owner => x owner >>= fun a => pure (k a))
      (plain >>= fun a => .ok (k a)) := by
  intro f owner howner
  have hx := h f owner howner
  cases plain with
  | error e =>
    show (x owner f >>= fun r => .ok (k r.1, r.2)) = .error e
    rw [hx]
    rfl
  | ok a =>
    obtain ⟨a', g, hrun, rfl, hg⟩ := hx
    refine ⟨k a', g, ?_, herase a', (hreports a').symm ▸ hg⟩
    show (x owner f >>= fun r => .ok (k r.1, r.2)) = .ok (k a', g)
    rw [hrun]
    rfl

end Wiring

open Wiring (Makes Yields)

/-! ## What the constructors make -/

theorem Slot.makes_around {f : Family} {e : Expr f} {node : Nat → Wiring (Node f)}
    {plain : Except EditorError (Node f)}
    (h : Makes (Node.recount fun _ => 0) Node.reports node plain) :
    Makes (Slot.recount fun _ => 0) Slot.reports (wireAround e node) (Slot.around e plain) := by
  refine Makes.node fun n => ?_
  unfold occupied Slot.around
  cases e.isGap with
  | true => exact .pure rfl rfl
  | false =>
    refine (h.registered _ _).yields.bind fun node' ts hts => ?_
    subst hts
    exact .pure rfl rfl

theorem Node.makes {f : Family} (e : Expr f) :
    Makes (Node.recount fun _ => 0) Node.reports (wire e) (Node.new e) := by
  induction e with
  | gap => exact fun _ _ _ => rfl
  | number _ | text _ | url _ => exact Makes.node fun n => .pure rfl rfl
  | operation o a b iha ihb =>
    refine Makes.node fun n => ?_
    refine (Slot.makes_around iha).yields.bind fun op1 ts hop1 => ?_
    refine (Slot.makes_around ihb).yields.bind fun op2 ts hop2 => ?_
    refine (Yields.lift (OperatorChoice.of o)).bind fun choice ts hchoice => ?_
    subst hop1 hop2 hchoice
    exact .pure rfl rfl
  | titleOf v ih | relatedTo v ih =>
    refine Makes.node fun n => ?_
    refine (Slot.makes_around ih).yields.bind fun slot ts hslot => ?_
    subst hslot
    exact .pure rfl rfl
  | randomFrom c ih =>
    refine Makes.node fun n => ?_
    refine (Slot.makes_around ih).yields.bind fun slot ts hslot => ?_
    subst hslot
    exact .pure rfl rfl

theorem Slot.makes {f : Family} (e : Expr f) :
    Makes (Slot.recount fun _ => 0) Slot.reports (wire e) (Slot.new e) :=
  makes_around (Node.makes e)

theorem StatementNode.makes_new : ∀ s : Statement,
    Makes (StatementNode.recount fun _ => 0) StatementNode.reports (wire s) (StatementNode.new s)
  | .get name => by
    refine Makes.node fun n => ?_
    refine (Yields.lift (VariableChoice.of name)).bind fun choice ts hchoice => ?_
    subst hchoice
    exact .pure rfl rfl
  | .set name value => by
    refine Makes.node fun n => ?_
    refine (Yields.lift (VariableChoice.of name)).bind fun choice ts hchoice => ?_
    refine (Slot.makes value).yields.bind fun slot ts hslot => ?_
    subst hchoice hslot
    exact .pure rfl rfl

theorem StatementNode.makes (s : Statement) :
    Makes (StatementNode.recount fun _ => 0) StatementNode.reports (wireBuild s)
      (StatementNode.build s) :=
  (makes_new s).registered _ _

theorem yields_all {α β : Type} {erase : β → β} {reports : β → Reports} {wire : α → Nat → Wiring β}
    {plain : α → Except EditorError β} (h : ∀ a, Makes erase reports (wire a) (plain a))
    (owner : Nat) : ∀ {rs : List Reports} (as : List α),
    Yields owner rs (List.map erase) (fun bs ts => ts = rs ++ bs.map reports)
      (wireAll (wire · owner) as) (buildAll plain as)
  | rs, [] => .pure rfl (by simp)
  | rs, a :: as => by
    refine (h a).yields.bind fun b ts hb => ?_
    refine (yields_all h owner as).bind fun bs us hbs => ?_
    subst hb hbs
    exact .pure rfl (by simp)

theorem ListEditor.makes {α β : Type} {recount : (Nat → Nat) → β → β} {reports : β → Reports}
    {wire : α → Nat → Wiring β} {plain : α → Except EditorError β}
    (h : ∀ a, Makes (recount fun _ => 0) reports (wire a) (plain a)) (as : List α) :
    Makes (ListEditor.recount (fun _ => 0) (recount fun _ => 0)) (ListEditor.reports reports)
      (ListEditor.wire wire as) (do .ok ⟨← buildAll plain as, .new⟩) := by
  refine Makes.node fun n => ?_
  refine (yields_all h n as).bind fun bs ts hbs => ?_
  subst hbs
  exact .pure rfl rfl

theorem SequenceNode.makes (s : CommandSequence) :
    Makes (SequenceNode.recount fun _ => 0) SequenceNode.reports (wire s)
      (SequenceNode.build s) := by
  have hplain : SequenceNode.build s =
      ((do .ok ⟨← buildAll StatementNode.build s.commands, .new⟩) >>= fun commands =>
        .ok ⟨commands⟩) := by
    rw [bind_assoc]
    rfl
  rw [hplain]
  exact (ListEditor.makes StatementNode.makes s.commands).map (fun _ => rfl) fun _ => rfl

theorem SceneFrame.yields (title comment : String) (duration : Expr .number)
    (pre post : CommandSequence) (n : Nat) :
    Yields n [] (SceneFrame.recount fun _ => 0)
      (fun f rs => f.emitted = n ∧
        rs = [f.duration.reports, f.preCommands.reports, f.postCommands.reports])
      (wire title comment duration pre post n)
      (SceneFrame.new title comment duration pre post) := by
  refine (Slot.makes duration).yields.bind fun duration ts hduration => ?_
  refine (SequenceNode.makes pre).yields.bind fun pre ts hpre => ?_
  refine (SequenceNode.makes post).yields.bind fun post ts hpost => ?_
  subst hduration hpre hpost
  exact .pure rfl ⟨rfl, rfl⟩

theorem SceneNode.makes_new : ∀ s : Scene,
    Makes (SceneNode.recount fun _ => 0) SceneNode.reports (wire s) (SceneNode.new s)
  | .text s => by
    refine Makes.node fun n => ?_
    refine (SceneFrame.yields _ _ _ _ _ n).bind fun frame ts hframe => ?_
    refine (Slot.makes s.text).yields.bind fun text ts htext => ?_
    obtain ⟨rfl, rfl⟩ := hframe
    subst htext
    exact .pure rfl rfl
  | .video s => by
    refine Makes.node fun n => ?_
    refine (SceneFrame.yields _ _ _ _ _ n).bind fun frame ts hframe => ?_
    refine (Slot.makes s.source).yields.bind fun source ts hsource => ?_
    refine (Slot.makes s.offset).yields.bind fun offset ts hoffset => ?_
    obtain ⟨rfl, rfl⟩ := hframe
    subst hsource hoffset
    exact .pure rfl rfl

theorem SceneNode.makes (s : Scene) :
    Makes (SceneNode.recount fun _ => 0) SceneNode.reports (wireBuild s) (SceneNode.build s) :=
  (makes_new s).registered _ _

theorem ActNode.makes (a : Act) :
    Makes (ActNode.recount fun _ => 0) ActNode.reports (wire a) (ActNode.build a) := by
  have hplain : ActNode.build a =
      ((do .ok ⟨← buildAll SceneNode.build a.scenes, .new⟩) >>= fun scenes =>
        .ok ⟨scenes, 0⟩) := by
    rw [bind_assoc]
    rfl
  rw [hplain]
  refine Makes.node fun n => ?_
  refine (ListEditor.makes SceneNode.makes a.scenes).yields.bind fun scenes ts hscenes => ?_
  subst hscenes
  exact .pure rfl rfl

namespace AnyPart

def recount (g : Nat → Nat) (p : AnyPart) : AnyPart := ⟨p.site, p.site.recount g p.part⟩

def reports (p : AnyPart) : Reports := p.site.reports p.part

end AnyPart

theorem Component.makes_construct (c : Component) :
    Makes (AnyPart.recount fun _ => 0) AnyPart.reports (fun owner => c.wireConstruct owner)
      c.construct := by
  cases c with
  | expr e => exact (Node.makes e).map (fun _ => rfl) fun _ => rfl
  | statement s => exact (StatementNode.makes_new s).map (fun _ => rfl) fun _ => rfl
  | scene s => exact (SceneNode.makes_new s).map (fun _ => rfl) fun _ => rfl
  | sequence s => exact (SequenceNode.makes s).map (fun _ => rfl) fun _ => rfl
  | act a => exact (ActNode.makes a).map (fun _ => rfl) fun _ => rfl

theorem Component.makes (c : Component) :
    Makes (AnyPart.recount fun _ => 0) AnyPart.reports c.wire c.build :=
  c.makes_construct.registered _ _

end SceneScript
