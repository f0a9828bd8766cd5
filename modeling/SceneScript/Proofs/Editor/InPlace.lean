import SceneScript.Proofs.Editor.Operations
import SceneScript.Proofs.Editor.Model
import SceneScript.Proofs.Editor.Parts

/-! Operations carried out in place. They run on the part itself, one statement after the other, and
whatever was changed or announced before one of them fails stays changed and announced. Each comes
to what the edit of the same name comes to; so where that is refused, the statements that ran had
changed nothing yet. -/

namespace SceneScript

variable {ε δ σ τ α β : Type}

/-- How code that works in place ended: with a result or a failure, in which state, and with which
changes announced on the way. -/
structure Left (ε σ α : Type) where
  result : Except ε α
  state : σ
  heard : List Origin

namespace Left

def mapError (f : ε → δ) (l : Left ε σ α) : Left δ σ α := ⟨l.result.mapError f, l.state, l.heard⟩

/-- The part around the one that was worked on: each change announced inside is announced here. -/
def into (l : Left ε σ α) (make : σ → τ) (count : Option Origin → τ → τ) : Left ε τ α :=
  ⟨l.result, l.heard.foldl (fun s o => count (some o) s) (make l.state), l.heard⟩

/-- What an edit leaves: the edited part and its change, or the part as it was. -/
def of (s : σ) : Except ε (α × Edited σ) → Left ε σ α
  | .ok (a, e) => ⟨.ok a, e.part, e.origin.toList⟩
  | .error f => ⟨.error f, s, []⟩

theorem mapError_of (f : ε → δ) (s : σ) (r : Except ε (α × Edited σ)) :
    (of s r).mapError f = of s (r.mapError f) := by
  cases r <;> rfl

theorem into_of {make : σ → τ} {count : Option Origin → τ → τ} (hcount : ∀ t, count none t = t)
    (s : σ) (r : Except ε (α × Edited σ)) :
    (of s r).into make count = of (make s) (r.map fun (a, e) => (a, e.into make count)) := by
  rcases r with f | ⟨a, part, origin⟩
  · rfl
  · cases origin with
    | none => exact congrArg (Left.mk _ · _) (hcount _).symm
    | some o => rfl

end Left

def InPlace (ε σ α : Type) : Type := σ → Left ε σ α

namespace InPlace

/-- A statement that fails ends what it stands in, and leaves what is there. -/
instance : Monad (InPlace ε σ) where
  pure a := fun s => ⟨.ok a, s, []⟩
  bind x f := fun s =>
    match x s with
    | ⟨.ok a, s, heard⟩ => ⟨(f a s).result, (f a s).state, heard ++ (f a s).heard⟩
    | ⟨.error e, s, heard⟩ => ⟨.error e, s, heard⟩

def look : InPlace ε σ σ := fun s => ⟨.ok s, s, []⟩

def assign (change : σ → σ) : InPlace ε σ Unit := fun s => ⟨.ok (), change s, []⟩

/-- Goes on with a result, or fails as it did. -/
def ofResult (x : Except ε α) : InPlace ε σ α := fun s => ⟨x, s, []⟩

def fail (e : ε) : InPlace ε σ α := ofResult (.error e)

/-- Announces a change at the part's own notifier, if it has one. -/
def report (o : Origin) (count : Option Origin → σ → σ) : InPlace ε σ Unit :=
  fun s => ⟨.ok (), count (some o) s, [o]⟩

/-- Catches a failure; what was done before it stays. -/
def attempt (x : InPlace ε σ α) : InPlace δ σ (Except ε α) :=
  fun s => ⟨.ok (x s).result, (x s).state, (x s).heard⟩

def mapError (f : ε → δ) (x : InPlace ε σ α) : InPlace δ σ α := fun s => (x s).mapError f

section Statements

variable (s : σ)

@[simp] theorem pure_run (a : α) : (pure a : InPlace ε σ α) s = ⟨.ok a, s, []⟩ := rfl

@[simp] theorem look_bind (f : σ → InPlace ε σ α) : (look >>= f) s = f s s := rfl

@[simp] theorem assign_bind (change : σ → σ) (f : Unit → InPlace ε σ α) :
    (assign change >>= f) s = f () (change s) := rfl

@[simp] theorem ok_bind (a : α) (f : α → InPlace ε σ β) : (ofResult (.ok a) >>= f) s = f a s := rfl

@[simp] theorem error_bind (e : ε) (f : α → InPlace ε σ β) :
    (ofResult (.error e) >>= f) s = ⟨.error e, s, []⟩ := rfl

@[simp] theorem fail_bind (e : ε) (f : α → InPlace ε σ β) :
    (fail e >>= f) s = ⟨.error e, s, []⟩ := rfl

theorem bind_of_ok {x : InPlace ε σ α} {s s' : σ} {a : α} {heard : List Origin}
    (h : x s = ⟨.ok a, s', heard⟩) (f : α → InPlace ε σ β) :
    (x >>= f) s = ⟨(f a s').result, (f a s').state, heard ++ (f a s').heard⟩ := by
  simp only [bind, h]

theorem bind_of_error {x : InPlace ε σ α} {s s' : σ} {e : ε} {heard : List Origin}
    (h : x s = ⟨.error e, s', heard⟩) (f : α → InPlace ε σ β) :
    (x >>= f) s = ⟨.error e, s', heard⟩ := by
  simp only [bind, h]

@[simp] theorem report_run (o : Origin) (count : Option Origin → σ → σ) :
    (report o count : InPlace ε σ Unit) s = ⟨.ok (), count (some o) s, [o]⟩ := rfl

end Statements

end InPlace

namespace InPlace

/-- Code that does in place what an edit does: where the edit is refused, nothing is left of it. -/
def Performs (x : InPlace ε σ Unit) (edit : σ → Except ε (Edited σ)) : Prop :=
  ∀ s, x s = .of s ((edit s).map fun e => ((), e))

namespace Performs

variable {x : InPlace ε σ Unit} {edit : σ → Except ε (Edited σ)}

theorem mapError (h : x.Performs edit) (f : ε → δ) :
    (x.mapError f).Performs fun s => (edit s).mapError f := by
  intro s
  refine (congrArg (Left.mapError f) (h s)).trans ((Left.mapError_of ..).trans ?_)
  dsimp only
  cases edit s <;> rfl

/-- The edit of a part inside, and the announcement it makes here. -/
theorem into (h : x.Performs edit) (s : σ) (make : σ → τ) (count : Option Origin → τ → τ)
    (hcount : ∀ t, count none t = t) :
    (x s).into make count =
      .of (make s) ((edit s >>= fun e => .ok (e.into make count)).map fun e => ((), e)) := by
  rw [h s, Left.into_of hcount]
  cases edit s <;> rfl

theorem lift {x : InPlace EditorError σ Unit} {edit : σ → Except EditorError (Edited σ)}
    (h : x.Performs edit) :
    (x.mapError SessionFault.editor).Performs fun s => Action.lift (edit s) :=
  h.mapError _

theorem into_lift {x : InPlace EditorError σ Unit} {edit : σ → Except EditorError (Edited σ)}
    (h : x.Performs edit) (s : σ) (make : σ → τ) (count : Option Origin → τ → τ)
    (hcount : ∀ t, count none t = t) :
    ((x s).into make count).mapError SessionFault.editor =
      .of (make s)
        ((Action.lift (edit s >>= fun e => .ok (e.into make count))).map fun e => ((), e)) := by
  rw [h.into s make count hcount, Left.mapError_of]
  cases edit s <;> rfl

end Performs

end InPlace

open InPlace

/-! ## Controls -/

def TextField.setTextInPlace (text : String) : InPlace EditorError TextField Unit := do
  if (← look).readOnly then
    fail .readOnly
  if text ≠ (← look).text then
    assign fun f => { f with text }
    report .control fun _ f => f

theorem TextField.setText_performs (text : String) :
    (setTextInPlace text).Performs (setText · text) := by
  intro f
  unfold setTextInPlace setText
  by_cases hr : f.readOnly = true
  · simp [hr, Left.of, Except.map]
  · by_cases ht : text = f.text
    · simp [hr, ht, Left.of, Except.map]
    · simp [hr, ht, Left.of, Except.map]

def NumberField.setTextInPlace (text : String) : InPlace EditorError NumberField Unit := do
  if (← look).readOnly then
    fail .readOnly
  let value ← ofResult (parseNumber text)
  if text ≠ (← look).text then
    assign fun f => { f with text }
    assign fun f => { f with value }
    report .control fun _ f => f

theorem NumberField.setText_performs (text : String) :
    (setTextInPlace text).Performs (setText · text) := by
  intro f
  unfold setTextInPlace setText
  by_cases hr : f.readOnly = true
  · simp [hr, Left.of, Except.map]
  · cases parseNumber text with
    | error e => simp [hr, bind_error, Left.of, Except.map]
    | ok value =>
      by_cases ht : text = f.text
      · simp [hr, ht, bind_ok, Left.of, Except.map]
      · simp [hr, ht, bind_ok, Left.of, Except.map]

section Choices

variable {options : List α} [BEq α]

def Choice.selectInPlace (display : α → String) (a : α) :
    InPlace EditorError (Choice options) Unit := do
  if (← look).readOnly then
    fail .readOnly
  match options.finIdxOf? a with
  | none => fail (.unknownOption (display a))
  | some index =>
    if index ≠ (← look).index then
      assign fun c => { c with index }
      report .control fun _ c => c

theorem Choice.select_performs (display : α → String) (a : α) :
    Performs (selectInPlace display a) fun c : Choice options => c.select display a := by
  intro c
  unfold selectInPlace select
  by_cases hr : c.readOnly = true
  · simp [hr, Left.of, Except.map]
  · cases options.finIdxOf? a with
    | none => simp [hr, fail, ofResult, Left.of, Except.map]
    | some index =>
      by_cases hi : index = c.index
      · simp [hr, hi, Left.of, Except.map]
      · simp [hr, hi, Left.of, Except.map]

end Choices

def VariableChoice.selectNameInPlace (name : String) : InPlace EditorError VariableChoice Unit := do
  if name ∉ variableNames then
    fail (.unknownVariable name)
  Choice.selectInPlace id name

theorem VariableChoice.selectName_performs (name : String) :
    (selectNameInPlace name).Performs (selectName · name) := by
  intro c
  unfold selectNameInPlace selectName
  by_cases h : name ∈ variableNames
  · simp only [h, not_true_eq_false, if_false, if_true]
    exact Choice.select_performs id name c
  · simp [h, Left.of, Except.map]

def OperatorChoice.selectSymbolInPlace (symbol : String) :
    InPlace EditorError OperatorChoice Unit := do
  let o ← ofResult ((Operator.ofSymbol? symbol).elim (.error (.unknownOperator symbol)) .ok)
  Choice.selectInPlace Operator.symbol o

theorem OperatorChoice.selectSymbol_performs (symbol : String) :
    (selectSymbolInPlace symbol).Performs (selectSymbol · symbol) := by
  intro c
  unfold selectSymbolInPlace selectSymbol
  cases Operator.ofSymbol? symbol with
  | none => simp [Left.of, Except.map]
  | some o => exact Choice.select_performs Operator.symbol o c

namespace CommentBox

def setTitleInPlace (text : String) : InPlace EditorError CommentBox Unit := fun b =>
  (TextField.setTextInPlace text b.title).into (fun title => { b with title }) fun _ b => b

def setCommentInPlace (text : String) : InPlace EditorError CommentBox Unit := fun b =>
  (TextField.setTextInPlace text b.comment).into (fun comment => { b with comment }) fun _ b => b

theorem setTitle_performs (text : String) : (setTitleInPlace text).Performs (setTitle · text) :=
  fun b => (TextField.setText_performs text).into b.title (CommentBox.mk · b.comment)
    (fun _ b => b) fun _ => rfl

theorem setComment_performs (text : String) :
    (setCommentInPlace text).Performs (setComment · text) :=
  fun b => (TextField.setText_performs text).into b.comment (CommentBox.mk b.title)
    (fun _ b => b) fun _ => rfl

end CommentBox

/-! ## Nodes -/

namespace Node

def setTextInPlace (text : String) {f : Family} : InPlace SessionFault (Node f) Unit := fun
  | number field n =>
    ((NumberField.setTextInPlace text field).into (number · n) fun o => announce o).mapError .editor
  | .text field n =>
    ((TextField.setTextInPlace text field).into (Node.text · n)
      fun o => announce o).mapError .editor
  | url field n =>
    ((TextField.setTextInPlace text field).into (url · n) fun o => announce o).mapError .editor
  | n => fail .notHere n

def setOperatorInPlace (symbol : String) {f : Family} : InPlace SessionFault (Node f) Unit := fun
  | operation o a b n =>
    ((OperatorChoice.selectSymbolInPlace symbol o).into (operation · a b n)
      fun o => announce o).mapError .editor
  | n => fail .notHere n

theorem setText_performs (text : String) {f : Family} : (setTextInPlace (f := f) text).Performs
    fun n => (n.setText? text).elim (.error .notHere) Action.lift := by
  intro n
  cases n with
  | number field n =>
    exact (NumberField.setText_performs text).into_lift field (number · n) _ announce_none
  | text field n =>
    exact (TextField.setText_performs text).into_lift field (Node.text · n) _ announce_none
  | url field n =>
    exact (TextField.setText_performs text).into_lift field (url · n) _ announce_none
  | operation | title | random | related => rfl

theorem setOperator_performs (symbol : String) {f : Family} :
    (setOperatorInPlace (f := f) symbol).Performs
      fun n => (n.setOperator? symbol).elim (.error .notHere) Action.lift := by
  intro n
  cases n with
  | operation o a b n =>
    exact (OperatorChoice.selectSymbol_performs symbol).into_lift o (operation · a b n) _
      announce_none
  | number | text | title | url | random | related => rfl

end Node

def StatementNode.selectVariableInPlace (name : String) :
    InPlace EditorError StatementNode Unit := fun
  | get c n => (VariableChoice.selectNameInPlace name c).into (get · n) announce
  | set c value n => (VariableChoice.selectNameInPlace name c).into (set · value n) announce

theorem StatementNode.selectVariable_performs (name : String) :
    (selectVariableInPlace name).Performs (selectVariable name) := by
  intro s
  cases s with
  | get c n =>
    exact (VariableChoice.selectName_performs name).into c (get · n) announce announce_none
  | set c value n =>
    exact (VariableChoice.selectName_performs name).into c (set · value n) announce announce_none

def SceneNode.editCommentInPlace (x : InPlace EditorError CommentBox Unit) :
    InPlace EditorError SceneNode Unit := fun s =>
  (x s.frame.comment).into (fun comment => s.withFrame { s.frame with comment }) announce

theorem SceneNode.editComment_performs {x : InPlace EditorError CommentBox Unit}
    {edit : CommentBox → Except EditorError (Edited CommentBox)} (h : x.Performs edit) :
    (editCommentInPlace x).Performs (editComment edit) := by
  intro s
  have hsame : s.withFrame { s.frame with comment := s.frame.comment } = s := by cases s <;> rfl
  have hinside := h.into s.frame.comment
    (fun comment => s.withFrame { s.frame with comment }) announce announce_none
  rw [hsame] at hinside
  exact hinside

/-! ## Slots -/

namespace Slot

variable {f : Family}

def withOccupant (occupant : Option (Node f)) (s : Slot f) : Slot f :=
  occupant.elim (empty s.frame) (full s.frame)

/-- The old occupant is replaced only once the new one is built. -/
def fillInPlace (e : Expr f) : InPlace EditorError (Slot f) Unit := do
  let occupant := (← ofResult (Slot.new e)).occupant?
  let readOnly := (← look).frame.readOnly
  assign (withOccupant (occupant.map (Node.setReadOnly readOnly)))
  report .slotFilled fun o => Slot.announce o

theorem fill_performs (e : Expr f) : (fillInPlace e).Performs (fill · e) := by
  intro s
  unfold fillInPlace fill
  rw [Slot.new_eq]
  cases Slot.ofExpr e <;> cases s <;> rfl

def fillComponentInPlace (c : Component) : InPlace EditorError (Slot f) Unit := do
  let e ← ofResult ((c.expr? f).elim (.error (.incompatible (.expr f) c.kind)) .ok)
  fillInPlace e

theorem fillComponent_performs (c : Component) :
    (fillComponentInPlace (f := f) c).Performs (fillComponent · c) := by
  intro s
  unfold fillComponentInPlace fillComponent
  cases c.expr? f with
  | none => rfl
  | some e => exact fill_performs e s

/-- The occupant is taken out before it is known whether there was one. -/
def clearInPlace : InPlace EditorError (Slot f) Unit := do
  let occupant := (← look).occupant?
  assign (withOccupant none)
  if occupant.isNone then
    fail (.slotNotOccupied (.expr f))
  report .slotEmptied fun o => Slot.announce o

theorem clear_performs : (clearInPlace (f := f)).Performs clear := by
  intro s
  cases s <;> rfl

end Slot

/-! ## Lists -/

namespace ListEditor

variable [Entry α]

def appendInPlace (m : Entry.Model α) : InPlace EditorError (ListEditor α) Unit := do
  let entry ← ofResult (Entry.build m)
  let readOnly := (← look).gap.readOnly
  assign fun l => { l with items := l.items ++ [Entry.setReadOnly readOnly entry] }
  report .listAppended ListEditor.announce

theorem append_performs (m : Entry.Model α) : (appendInPlace m).Performs (append · m) := by
  intro l
  unfold appendInPlace append
  cases Entry.build m <;> rfl

def appendComponentInPlace (c : Component) : InPlace EditorError (ListEditor α) Unit := do
  let m ← ofResult ((Entry.ofComponent? (α := α) c).elim
    (.error (.incompatible (Entry.category α) c.kind)) .ok)
  appendInPlace m

theorem appendComponent_performs (c : Component) :
    (appendComponentInPlace (α := α) c).Performs (appendComponent · c) := by
  intro l
  unfold appendComponentInPlace appendComponent
  cases Entry.ofComponent? (α := α) c with
  | none => rfl
  | some m => exact append_performs m l

end ListEditor

def SequenceNode.addCommandInPlace (c : Statement) : InPlace EditorError SequenceNode Unit :=
  fun s => (ListEditor.appendInPlace c s.commands).into SequenceNode.mk fun _ s => s

theorem SequenceNode.addCommand_performs (c : Statement) :
    (addCommandInPlace c).Performs (addCommand · c) :=
  fun s => (ListEditor.append_performs (α := StatementNode) c).into s.commands SequenceNode.mk
    (fun _ s => s) fun _ => rfl

def ActNode.addSceneInPlace (s : Scene) : InPlace EditorError ActNode Unit :=
  fun a => (ListEditor.appendInPlace s a.scenes).into (fun scenes => { a with scenes }) announce

theorem ActNode.addScene_performs (s : Scene) : (addSceneInPlace s).Performs (addScene · s) :=
  fun a => (ListEditor.append_performs (α := SceneNode) s).into a.scenes (ActNode.mk · a.emitted)
    announce fun _ => rfl

def Target.acceptInPlace (c : Component) : (t : Target) → InPlace EditorError t.Part Unit
  | slot _ => Slot.fillComponentInPlace c
  | commands => ListEditor.appendComponentInPlace c
  | scenes => ListEditor.appendComponentInPlace c

theorem Target.accept_performs (c : Component) :
    ∀ t : Target, (t.acceptInPlace c).Performs (t.accept · c)
  | slot _ => Slot.fillComponent_performs c
  | commands => ListEditor.appendComponent_performs c
  | scenes => ListEditor.appendComponent_performs c

/-! ## Actions -/

namespace Action

def inPlace : Action → (s : Site) → InPlace SessionFault s.Part Unit
  | setText text, .node _ => Node.setTextInPlace text
  | setOperator symbol, .node _ => Node.setOperatorInPlace symbol
  | selectVariable name, .statement => (StatementNode.selectVariableInPlace name).mapError .editor
  | setTitle text, .scene =>
    (SceneNode.editCommentInPlace (CommentBox.setTitleInPlace text)).mapError .editor
  | setComment text, .scene =>
    (SceneNode.editCommentInPlace (CommentBox.setCommentInPlace text)).mapError .editor
  | fill c, .slot f => do
    let e ← ofResult (converted c (c.expr? f))
    (Slot.fillInPlace e).mapError .editor
  | fillComponent c, .slot _ => (Slot.fillComponentInPlace c).mapError .editor
  | clear, .slot _ => Slot.clearInPlace.mapError .editor
  | append c, .act => do
    let s ← ofResult (converted c c.scene?)
    (ActNode.addSceneInPlace s).mapError .editor
  | append c, .sequence => do
    let s ← ofResult (converted c c.statement?)
    (SequenceNode.addCommandInPlace s).mapError .editor
  | append c, .commands => do
    let s ← ofResult (converted c c.statement?)
    (ListEditor.appendInPlace s).mapError .editor
  | append c, .scenes => do
    let s ← ofResult (converted c c.scene?)
    (ListEditor.appendInPlace s).mapError .editor
  | appendComponent c, .commands => (ListEditor.appendComponentInPlace c).mapError .editor
  | appendComponent c, .scenes => (ListEditor.appendComponentInPlace c).mapError .editor
  | _, _ => fail .notHere

theorem performs_converted {c : Component} {m : Option α} {x : α → InPlace SessionFault σ Unit}
    {edit : σ → α → Except EditorError (Edited σ)}
    (h : ∀ a, (x a).Performs fun s => lift (edit s a)) :
      InPlace.Performs (do x (← ofResult (converted c m)))
      (fun s => do lift (edit s (← converted c m))) := by
  intro s
  cases m with
  | none => rfl
  | some a => exact h a s

/-- Every action in place leaves what its edit leaves. -/
theorem on_performs (a : Action) (s : Site) : (a.inPlace s).Performs (a.on s) := by
  cases a with
  | setText text =>
    cases s with
    | node f =>
      intro p
      refine (Node.setText_performs text p).trans ?_
      dsimp only [on]
      cases p.setText? text <;> rfl
    | _ => exact fun _ => rfl
  | setOperator symbol =>
    cases s with
    | node f =>
      intro p
      refine (Node.setOperator_performs symbol p).trans ?_
      dsimp only [on]
      cases p.setOperator? symbol <;> rfl
    | _ => exact fun _ => rfl
  | selectVariable name =>
    cases s with
    | statement => exact (StatementNode.selectVariable_performs name).lift
    | _ => exact fun _ => rfl
  | setTitle text =>
    cases s with
    | scene =>
      exact (SceneNode.editComment_performs (CommentBox.setTitle_performs text)).lift
    | _ => exact fun _ => rfl
  | setComment text =>
    cases s with
    | scene =>
      exact (SceneNode.editComment_performs (CommentBox.setComment_performs text)).lift
    | _ => exact fun _ => rfl
  | fill c =>
    cases s with
    | slot f => exact performs_converted fun e => (Slot.fill_performs e).lift
    | _ => exact fun _ => rfl
  | fillComponent c =>
    cases s with
    | slot f => exact (Slot.fillComponent_performs c).lift
    | _ => exact fun _ => rfl
  | clear =>
    cases s with
    | slot f => exact Slot.clear_performs.lift
    | _ => exact fun _ => rfl
  | append c =>
    cases s with
    | act => exact performs_converted fun s => (ActNode.addScene_performs s).lift
    | sequence =>
      exact performs_converted fun s => (SequenceNode.addCommand_performs s).lift
    | commands =>
      exact performs_converted fun s =>
        (ListEditor.append_performs (α := StatementNode) s).lift
    | scenes =>
      exact performs_converted fun s =>
        (ListEditor.append_performs (α := SceneNode) s).lift
    | _ => exact fun _ => rfl
  | appendComponent c =>
    cases s with
    | commands => exact (ListEditor.appendComponent_performs c).lift
    | scenes => exact (ListEditor.appendComponent_performs c).lift
    | _ => exact fun _ => rfl

end Action

end SceneScript
