import SceneScript.Proofs.Editor.Relinking

/-! Edits of parts with their notifiers. What an edit builds hangs below the notifier of the slot or
list it is made in, and that notifier is told. The controls of a node tell the notifier of the node.
An act and a command sequence hand what is appended to them on to their lists. -/

namespace SceneScript

open Reports

variable {α : Type} {a b c s t : Site} {f g : Forest} {owner : Nat}

/-! ## Edits -/

/-- A part after an edit, the notifiers with those that were made, and the one to be told of what
change, if it is one. -/
structure Rewired (s : Site) where
  part : s.Part
  forest : Forest
  told : Option (Nat × Origin)

/-- An edit the part's own notifier is told of. -/
def Rewired.telling (s : Site) (p : s.Part) (o : Origin) (edit : Wiring s.Part) (f : Forest) :
    Except EditorError (Rewired s) := do
  let (p', g) ← edit f
  .ok ⟨p', g, some (s.emitted p, o)⟩

def Slot.wireFill {f : Family} (slot : Slot f) (e : Expr f) : Wiring (Slot f) := do
  let filled ← occupied slot.frame e (Node.wire e slot.frame.emitted)
  return filled.setReadOnly slot.frame.readOnly

/-- The list with an entry more. -/
def ListEditor.grown (l : ListEditor α) (entry : α) : ListEditor α :=
  { l with items := l.items ++ [entry] }

def ListEditor.wireAppend [Entry α] (wire : Entry.Model α → Nat → Wiring α) (l : ListEditor α)
    (m : Entry.Model α) : Wiring (ListEditor α) := do
  let entry ← wire m l.gap.emitted
  return l.grown (Entry.setReadOnly l.gap.readOnly entry)

def Slot.tellFill {k : Family} (slot : Slot k) (e : Expr k) :
    Forest → Except EditorError (Rewired (.slot k)) :=
  Rewired.telling (.slot k) slot .slotFilled (slot.wireFill e)

def ListEditor.tellCommand (l : ListEditor StatementNode) (c : Statement) :
    Forest → Except EditorError (Rewired .commands) :=
  Rewired.telling .commands l .listAppended (l.wireAppend StatementNode.wireBuild c)

def ListEditor.tellScene (l : ListEditor SceneNode) (c : Scene) :
    Forest → Except EditorError (Rewired .scenes) :=
  Rewired.telling .scenes l .listAppended (l.wireAppend SceneNode.wireBuild c)

def SequenceNode.tellCommand (s : SequenceNode) (c : Statement) (f : Forest) :
    Except EditorError (Rewired .sequence) := do
  let r ← s.commands.tellCommand c f
  .ok ⟨⟨r.part⟩, r.forest, r.told⟩

def ActNode.tellScene (a : ActNode) (c : Scene) (f : Forest) :
    Except EditorError (Rewired .act) := do
  let r ← a.scenes.tellScene c f
  .ok ⟨{ a with scenes := r.part }, r.forest, r.told⟩

/-- The part with another number for its notifier, where it has controls. -/
def Site.withNumber (n : Nat) : (s : Site) → s.Part → s.Part
  | node _, .number field _ => .number field n
  | node _, .operation o x y _ => .operation o x y n
  | node _, .text field _ => .text field n
  | node _, .title v _ => .title v n
  | node _, .url field _ => .url field n
  | node _, .random c _ => .random c n
  | node _, .related v _ => .related v n
  | statement, .get name _ => .get name n
  | statement, .set name value _ => .set name value n
  | scene, p => p.withFrame { p.frame with emitted := n }
  | _, p => p

namespace Action

/-- Performs an action on a part among the notifiers. Whatever does not put anything into a slot or
a list is an edit of a control, which announces at the notifier of its node. -/
def wire : Action → (s : Site) → s.Part → Forest → Except SessionFault (Rewired s)
  | fill c, .slot k, p, f => do lift (p.tellFill (← converted c (c.expr? k)) f)
  | fillComponent c, .slot k, p, f =>
    match c.expr? k with
    | some e => lift (p.tellFill e f)
    | none => lift (.error (.incompatible (.expr k) c.kind))
  | clear, .slot k, .empty _, _ => lift (.error (.slotNotOccupied (.expr k)))
  | clear, .slot _, .full frame _, f =>
    .ok ⟨.empty frame, f, some (frame.emitted, .slotEmptied)⟩
  | append c, .act, p, f => do lift (p.tellScene (← converted c c.scene?) f)
  | append c, .sequence, p, f => do lift (p.tellCommand (← converted c c.statement?) f)
  | append c, .commands, p, f => do lift (p.tellCommand (← converted c c.statement?) f)
  | append c, .scenes, p, f => do lift (p.tellScene (← converted c c.scene?) f)
  | appendComponent c, .commands, p, f =>
    match c.statement? with
    | some m => lift (p.tellCommand m f)
    | none => lift (.error (.incompatible .statement c.kind))
  | appendComponent c, .scenes, p, f =>
    match c.scene? with
    | some m => lift (p.tellScene m f)
    | none => lift (.error (.incompatible .scene c.kind))
  | x, s, p, f => do
    let e ← x.on s p
    .ok ⟨s.withNumber (s.emitted p) e.part, f, e.origin.map (s.emitted p, ·)⟩

/-- Where an action is made: an act and a command sequence stand for their lists. -/
def way : Action → (s : Site) → Way s
  | append _, .act => .one .scenes
  | append _, .sequence => .one .commands
  | _, s => ⟨s, .here⟩

end Action

/-! ## What the same edit makes of a tree that counts for itself -/

/-- An edit of a part among the notifiers, and the same edit of the part with their counts. -/
inductive Rewired.Mirrors {ε : Type} (f : Forest) (p : s.Part) (way : Way s) :
    Except ε (Edited s.Part) → Except ε (Rewired s) → Prop
  | refused (e : ε) : Mirrors f p way (.error e) (.error e)
  | silent : Mirrors f p way (.ok ⟨s.recount f.emittedAt p, none⟩) (.ok ⟨p, f, none⟩)
  | told {n : Nat} {o : Origin} {e : Edited s.Part} {g : Forest} {p' : s.Part}
    (h : Relinks f way.path n o p e g p') : Mirrors f p way (.ok e) (.ok ⟨p', g, some (n, o)⟩)

open Rewired (Mirrors)

theorem Rewired.Mirrors.lift {p : s.Part} {way : Way s} {plain : Except EditorError (Edited s.Part)}
    {linked : Except EditorError (Rewired s)} (h : Mirrors f p way plain linked) :
    Mirrors f p way (Action.lift plain) (Action.lift linked) := by
  cases h with
  | refused e => exact .refused _
  | silent => exact .silent
  | told h => exact .told h

/-- What a part hands on to one inside it. -/
theorem Rewired.Mirrors.inside {ε : Type} {step : Step a b} {p : a.Part} {q : b.Part} {way : Way b}
    {plain : Except ε (Edited b.Part)} {linked : Except ε (Rewired b)}
    (h : Mirrors f q way plain linked) (hq : step.get? p = some q) :
    Mirrors f p ⟨way.site, .step step way.path⟩
      (do
        let e ← plain
        .ok ⟨a.announce e.origin (step.put e.part (a.recount f.emittedAt p)), e.origin⟩)
      (do
        let r ← linked
        .ok ⟨step.put r.part p, r.forest, r.told⟩) := by
  cases h with
  | refused e => exact .refused e
  | silent =>
    have hput : step.put q p = p := Step.put_get? hq
    simp only [bind_ok, Site.announce_none, ← step.recount_put, hput]
    exact .silent
  | told h =>
    simp only [bind_ok, h.origin]
    exact .told (h.inside hq)

/-! ### Controls -/

/-- A part that differs in its controls alone. -/
structure Site.Recontrolled (p p' : s.Part) : Prop where
  emitted : s.emitted p' = s.emitted p
  reports : s.reports p' = s.reports p
  inside : ∀ {b : Site} (step : Step s b), step.get? p' = step.get? p

theorem Site.Recontrolled.relinks {p p' : s.Part} (h : Site.Recontrolled p p') (hs : s ≠ .sequence)
    {o : Origin} : Relinks f .here (s.emitted p) o p
      ⟨s.announce (some o) (s.recount f.emittedAt p'), some o⟩ f p' := by
  obtain ⟨below, hreports⟩ := s.exists_reports p
  have hreports' : s.reports p' = .mk (s.emitted p) (below ++ []) := by
    rw [h.reports, hreports, List.append_nil]
  refine relinks_here hs hreports hreports' (List.Sublist.refl _) (.refl _ _) h.emitted ?_
  intro b step q hq
  exact .inl ((h.inside step).symm.trans hq)

/-- An edit of a control inside a part, which the part tells of. -/
structure Action.Controls (x : Action) (s : Site) (p : s.Part) {α : Type} (held : α)
    (edited : Except EditorError (Edited α)) (make : α → s.Part) : Prop where
  own : s ≠ .sequence
  same : make held = p
  made : ∀ new, Site.Recontrolled p (make new)
  tells : ∀ {e}, edited = .ok e → e.Tells held
  numbered : ∀ o new, s.withNumber (s.emitted p) (s.announce o (make new)) = make new
  on_recount : ∀ g, x.on s (s.recount g p) = Action.lift (do
    .ok ((← edited).into (fun new => s.recount g (make new)) fun o => s.announce o))
  on_eq : x.on s p = Action.lift (do .ok ((← edited).into make fun o => s.announce o))
  wire_eq : ∀ f, x.wire s p f = do
    let e ← x.on s p
    .ok ⟨s.withNumber (s.emitted p) e.part, f, e.origin.map (s.emitted p, ·)⟩

theorem Action.Controls.mirrors {x : Action} {p : s.Part} {held : α} {make : α → s.Part}
    {edited : Except EditorError (Edited α)} (h : x.Controls s p held edited make) :
    Mirrors f p ⟨s, .here⟩ (x.on s (s.recount f.emittedAt p)) (x.wire s p f) := by
  rw [h.on_recount, h.wire_eq, h.on_eq]
  cases hedited : edited with
  | error e => exact .refused _
  | ok e =>
    show Mirrors f _ _ (.ok ⟨s.announce e.origin (s.recount f.emittedAt (make e.part)), e.origin⟩)
      (.ok ⟨s.withNumber (s.emitted p) (s.announce e.origin (make e.part)), f,
        e.origin.map (s.emitted p, ·)⟩)
    rw [h.numbered]
    obtain rfl | ⟨horigin, -⟩ := h.tells hedited
    · rw [Site.announce_none, h.same]
      exact .silent
    · rw [horigin]
      exact .told ((h.made e.part).relinks h.own)

section Controls

variable {k : Family}

theorem Node.setText_mirrors (p : Node k) (text : String) :
    Mirrors f p ⟨.node k, .here⟩
      ((Action.setText text).on (.node k) (Site.recount f.emittedAt (.node k) p))
      ((Action.setText text).wire (.node k) p f) := by
  cases p with
  | number field n =>
    have h : (Action.setText text).Controls (.node .number) (.number field n) field
        (field.setText text) (Node.number · n) := by
      refine ⟨nofun, rfl, fun _ => ⟨rfl, rfl, fun step => ?_⟩, NumberField.setText_tells,
        fun _ _ => rfl, fun _ => rfl, rfl, fun _ => rfl⟩
      cases step <;> rfl
    exact h.mirrors
  | text field n =>
    have h : (Action.setText text).Controls (.node .text) (.text field n) field
        (field.setText text) (Node.text · n) := by
      refine ⟨nofun, rfl, fun _ => ⟨rfl, rfl, fun step => ?_⟩, TextField.setText_tells,
        fun _ _ => rfl, fun _ => rfl, rfl, fun _ => rfl⟩
      cases step
      rfl
    exact h.mirrors
  | url field n =>
    have h : (Action.setText text).Controls (.node .video) (.url field n) field
        (field.setText text) (Node.url · n) := by
      refine ⟨nofun, rfl, fun _ => ⟨rfl, rfl, fun step => ?_⟩, TextField.setText_tells,
        fun _ _ => rfl, fun _ => rfl, rfl, fun _ => rfl⟩
      cases step
      rfl
    exact h.mirrors
  | operation | title | random | related => exact .refused _

theorem Node.setOperator_mirrors (p : Node k) (symbol : String) :
    Mirrors f p ⟨.node k, .here⟩
      ((Action.setOperator symbol).on (.node k) (Site.recount f.emittedAt (.node k) p))
      ((Action.setOperator symbol).wire (.node k) p f) := by
  cases p with
  | operation o x y n =>
    have h : (Action.setOperator symbol).Controls (.node .number) (.operation o x y n) o
        (o.selectSymbol symbol) (Node.operation · x y n) := by
      refine ⟨nofun, rfl, fun _ => ⟨rfl, rfl, fun step => ?_⟩, OperatorChoice.selectSymbol_tells,
        fun _ _ => rfl, fun _ => rfl, rfl, fun _ => rfl⟩
      cases step <;> rfl
    exact h.mirrors
  | number | text | title | url | random | related => exact .refused _

theorem StatementNode.selectVariable_mirrors (p : StatementNode) (name : String) :
    Mirrors f p ⟨.statement, .here⟩
      ((Action.selectVariable name).on .statement (Site.recount f.emittedAt .statement p))
      ((Action.selectVariable name).wire .statement p f) := by
  cases p with
  | get choice n =>
    have h : (Action.selectVariable name).Controls .statement (.get choice n) choice
        (choice.selectName name) (StatementNode.get · n) := by
      refine ⟨nofun, rfl, fun _ => ⟨rfl, rfl, fun step => ?_⟩, VariableChoice.selectName_tells,
        fun _ _ => rfl, fun _ => rfl, rfl, fun _ => rfl⟩
      cases step
      rfl
    exact h.mirrors
  | set choice value n =>
    have h : (Action.selectVariable name).Controls .statement (.set choice value n) choice
        (choice.selectName name) (StatementNode.set · value n) := by
      refine ⟨nofun, rfl, fun _ => ⟨rfl, rfl, fun step => ?_⟩, VariableChoice.selectName_tells,
        fun _ _ => rfl, fun _ => rfl, rfl, fun _ => rfl⟩
      cases step
      rfl
    exact h.mirrors

/-- The title and the comment of a scene are edited in one box. -/
theorem SceneNode.editComment_mirrors {x : Action} {p : SceneNode}
    {edit : CommentBox → Except EditorError (Edited CommentBox)}
    (htells : ∀ {e}, edit p.frame.comment = .ok e → e.Tells p.frame.comment)
    (hon : ∀ p', x.on .scene p' = Action.lift (p'.editComment edit))
    (hwire : ∀ f, x.wire .scene p f = do
      let e ← x.on .scene p
      .ok ⟨Site.scene.withNumber p.frame.emitted e.part, f, e.origin.map (p.frame.emitted, ·)⟩) :
    Mirrors f p ⟨.scene, .here⟩ (x.on .scene (Site.recount f.emittedAt .scene p))
      (x.wire .scene p f) := by
  have h : x.Controls .scene p p.frame.comment (edit p.frame.comment)
      (fun comment => p.withFrame { p.frame with comment }) := by
    refine ⟨nofun, ?_, fun _ => ⟨?_, ?_, fun step => ?_⟩, htells, fun _ _ => ?_, fun _ => ?_,
      hon p, hwire⟩
    · cases p <;> rfl
    · cases p <;> rfl
    · cases p <;> rfl
    · cases step <;> cases p <;> rfl
    · cases p <;> rfl
    · cases p <;> exact hon _
  exact h.mirrors

end Controls

/-! ### New parts -/

section Fresh

variable {n : Nat} {p : s.Part} (h : f.Wired n [s.reports p] g)

include h

theorem Forest.Wired.fresh_part : ∀ j ∈ (s.reports p).numbers, f.size ≤ j := by
  intro j hj
  refine h.fresh j ?_
  rwa [numbersAll, numbersAll, List.append_nil]

/-- New parts have announced nothing. -/
theorem Forest.Wired.recount_part : s.recount f.emittedAt p = s.recount (fun _ => 0) p :=
  Site.recount_congr fun j hj => Forest.emittedAt_of_size_le (h.fresh_part j hj)

end Fresh

/-! ### Slots -/

section Slots

variable {k : Family} {slot : Slot k} {e : Expr k}

theorem Slot.frame_recount (g : Nat → Nat) (slot : Slot k) :
    (slot.recount g).frame = slot.frame.recount g := by
  cases slot <;> rfl

theorem Slot.fill_gap (h : e.isGap = true) : slot.fill e =
    .ok ⟨(Slot.empty slot.frame).announce (some .slotFilled), some .slotFilled⟩ := by
  unfold fill new around
  rw [if_pos h]
  rfl

theorem Slot.fill_shown (h : e.isGap = false) : slot.fill e = (do
    let node ← Registry.build (.expr k) e.kind (Node.new e)
    let filled := Slot.full slot.frame (node.setReadOnly slot.frame.readOnly)
    .ok ⟨filled.announce (some .slotFilled), some .slotFilled⟩) := by
  unfold fill new around
  rw [h]
  cases Registry.build (.expr k) e.kind (Node.new e) <;> rfl

theorem Slot.tellFill_gap (h : e.isGap = true) : slot.tellFill e f =
    .ok ⟨.empty slot.frame, f, some (slot.frame.emitted, .slotFilled)⟩ := by
  unfold tellFill Rewired.telling wireFill occupied
  rw [if_pos h]
  rfl

theorem Slot.tellFill_shown (h : e.isGap = false) : slot.tellFill e f = (do
    let r ← Wiring.build (.expr k) e.kind (Node.wire e slot.frame.emitted) f
    .ok ⟨.full slot.frame (r.1.setReadOnly slot.frame.readOnly), r.2,
      some (slot.frame.emitted, .slotFilled)⟩) := by
  unfold tellFill Rewired.telling wireFill occupied
  rw [h]
  show (do
    let r ← (Wiring.build (.expr k) e.kind (Node.wire e slot.frame.emitted) f >>= _) >>= _
    _) = _
  cases Wiring.build (.expr k) e.kind (Node.wire e slot.frame.emitted) f <;> rfl

/-- What a slot held is gone, and its notifiers with it. -/
theorem Slot.relinks (slot slot' : Slot k) (o : Origin) {new : List Reports}
    (hreports : slot'.reports = .mk slot.frame.emitted new)
    (hnew : f.Wired slot.frame.emitted new g)
    (hoccupant : ∀ {node : Node k}, slot'.occupant? = some node → new = [node.reports]) :
    Relinks (s := .slot k) f .here slot.frame.emitted o slot
      ⟨(slot'.recount f.emittedAt).announce (some o), some o⟩ g slot' := by
  obtain ⟨old, hold⟩ := Site.exists_reports (.slot k) slot
  have hemitted : Site.emitted (.slot k) slot' = Site.emitted (.slot k) slot := by
    cases slot' <;> exact (Reports.mk.inj hreports).1
  refine relinks_here (s := .slot k) nofun hold (hreports.trans ?_) (List.nil_sublist old) hnew
    hemitted ?_
  · rfl
  · intro b step q hq
    cases step with
    | occupant =>
      obtain rfl := hoccupant hq
      exact .inr (hnew.fresh_part (s := .node k))

/-- A slot is filled with what a node is made for, or left empty for a gap. -/
theorem Slot.tellFill_mirrors (hown : slot.frame.emitted < f.size) :
    Mirrors f slot ⟨.slot k, .here⟩ ((slot.recount f.emittedAt).fill e) (slot.tellFill e f) := by
  cases hgap : e.isGap with
  | true =>
    rw [fill_gap hgap, tellFill_gap hgap, slot.frame_recount]
    exact .told (slot.relinks (.empty slot.frame) .slotFilled rfl (.refl _ _) nofun)
  | false =>
    have hnode := (Node.makes e).registered (.expr k) e.kind f slot.frame.emitted hown
    rw [fill_shown hgap, tellFill_shown hgap, slot.frame_recount]
    cases hplain : Registry.build (.expr k) e.kind (Node.new e) with
    | error err =>
      rw [hplain] at hnode
      have hrun : Wiring.build (.expr k) e.kind (Node.wire e slot.frame.emitted) f = .error err :=
        hnode
      rw [hrun]
      exact .refused err
    | ok node =>
      rw [hplain] at hnode
      obtain ⟨made, g, hmade, rfl, hnew⟩ := hnode
      have hrun : Wiring.build (.expr k) e.kind (Node.wire e slot.frame.emitted) f =
        .ok (made, g) := hmade
      have hcounts : made.recount f.emittedAt = made.recount fun _ => 0 :=
        hnew.recount_part (s := .node k)
      have hreports : (made.setReadOnly slot.frame.readOnly).reports = made.reports :=
        Site.reports_setReadOnly slot.frame.readOnly (.node k) made
      rw [← hreports] at hnew
      have hshown := slot.relinks (.full slot.frame (made.setReadOnly slot.frame.readOnly))
        .slotFilled rfl hnew fun hnode => Option.some.inj hnode ▸ rfl
      have hflagged : (made.setReadOnly slot.frame.readOnly).recount f.emittedAt =
          (made.recount f.emittedAt).setReadOnly slot.frame.readOnly :=
        Site.recount_setReadOnly slot.frame.readOnly (.node k) made
      rw [Slot.recount, hflagged, hcounts] at hshown
      rw [hrun]
      exact .told hshown

theorem Slot.clear_mirrors (slot : Slot k) : Mirrors f slot ⟨.slot k, .here⟩
    (Action.clear.on (.slot k) (slot.recount f.emittedAt)) (Action.clear.wire (.slot k) slot f) := by
  cases slot with
  | empty frame => exact .refused _
  | full frame node =>
    have hcleared := (Slot.full frame node).relinks (.empty frame) .slotEmptied rfl
      (.refl f frame.emitted) nofun
    exact .told hcleared

end Slots

/-! ### Lists -/

/-- What the entries of a list are and how they count. -/
structure Entry.Counts (α : Type) [Entry α] (recount : (Nat → Nat) → α → α) (reports : α → Reports)
    (wire : Entry.Model α → Nat → Wiring α) : Prop where
  makes : ∀ m, Wiring.Makes (recount fun _ => 0) reports (wire m) (Entry.build m)
  congr : ∀ {g G : Nat → Nat} {entry : α}, (∀ j ∈ (reports entry).numbers, G j = g j) →
    recount G entry = recount g entry
  reports_setReadOnly : ∀ r entry, reports (Entry.setReadOnly r entry) = reports entry
  recount_setReadOnly : ∀ g r entry,
    recount g (Entry.setReadOnly r entry) = Entry.setReadOnly r (recount g entry)

theorem StatementNode.counts :
    Entry.Counts StatementNode StatementNode.recount StatementNode.reports wireBuild where
  makes := StatementNode.makes
  congr := StatementNode.recount_congr
  reports_setReadOnly := fun r => Site.reports_setReadOnly r .statement
  recount_setReadOnly := fun _ r => Site.recount_setReadOnly r .statement

theorem SceneNode.counts : Entry.Counts SceneNode SceneNode.recount SceneNode.reports wireBuild where
  makes := SceneNode.makes
  congr := SceneNode.recount_congr
  reports_setReadOnly := fun r => Site.reports_setReadOnly r .scene
  recount_setReadOnly := fun _ r => Site.recount_setReadOnly r .scene

namespace ListEditor

theorem reports_grown (reports : α → Reports) (l : ListEditor α) (entry : α) :
    (l.grown entry).reports reports =
      .mk l.gap.emitted (l.items.map reports ++ [reports entry]) := by
  simp only [ListEditor.reports, grown, List.map_append, List.map_cons, List.map_nil]

theorem getElem?_grown {l : ListEditor α} {entry x : α} {i : Nat}
    (h : (l.grown entry).items[i]? = some x) : l.items[i]? = some x ∨ x = entry := by
  rw [grown, List.getElem?_append] at h
  split at h
  · exact .inl h
  · exact .inr (List.mem_singleton.mp (List.mem_of_getElem? h))

/-- The new entry of a list has its notifiers below that of the list. -/
theorem wireAppend_grown [Entry α] {recount : (Nat → Nat) → α → α} {reports : α → Reports}
    {wire : Entry.Model α → Nat → Wiring α} (h : Entry.Counts α recount reports wire)
    {l : ListEditor α} (hown : l.gap.emitted < f.size) (m : Entry.Model α) :
    (∃ e, l.wireAppend wire m f = .error e ∧
      (l.recount f.emittedAt (recount f.emittedAt)).append m = .error e) ∨
    ∃ entry g, f.Wired l.gap.emitted [reports entry] g ∧
      l.wireAppend wire m f = .ok (l.grown entry, g) ∧
      (l.recount f.emittedAt (recount f.emittedAt)).append m =
        .ok ⟨((l.grown entry).recount f.emittedAt (recount f.emittedAt)).announce
          (some .listAppended), some .listAppended⟩ := by
  have hentry := h.makes m f l.gap.emitted hown
  have hrun : l.wireAppend wire m f = (do
      let r ← wire m l.gap.emitted f
      .ok (l.grown (Entry.setReadOnly l.gap.readOnly r.1), r.2)) := rfl
  unfold append
  cases hplain : (Entry.build m : Except EditorError α) with
  | error e =>
    rw [hplain] at hentry
    have hfailed : wire m l.gap.emitted f = .error e := hentry
    rw [hrun, hfailed]
    exact .inl ⟨e, rfl, rfl⟩
  | ok entry =>
    rw [hplain] at hentry
    obtain ⟨made, g, hmade, rfl, hnew⟩ := hentry
    rw [hrun, hmade]
    have hcounts : recount f.emittedAt made = recount (fun _ => 0) made := h.congr fun j hj =>
      Forest.emittedAt_of_size_le (hnew.fresh j (mem_numbersAll.mpr ⟨_, by simp, hj⟩))
    refine .inr ⟨_, g, (h.reports_setReadOnly l.gap.readOnly made).symm ▸ hnew, rfl, ?_⟩
    simp only [bind_ok, ListEditor.recount, mapFlags, grown, List.map_append, List.map_cons,
      List.map_nil, h.recount_setReadOnly, hcounts]
    rfl

theorem tellCommand_mirrors (l : ListEditor StatementNode) (m : Statement)
    (hown : l.gap.emitted < f.size) : Mirrors f l ⟨.commands, .here⟩
      (append (Site.recount f.emittedAt .commands l) m) (l.tellCommand m f) := by
  unfold tellCommand Rewired.telling
  obtain ⟨e, hlinked, hplain⟩ | ⟨entry, g, hnew, hlinked, hplain⟩ :=
    wireAppend_grown StatementNode.counts hown m
  · rw [hlinked, Site.recount, hplain]
    exact .refused e
  · rw [hlinked, Site.recount, hplain]
    refine .told (relinks_here (s := .commands) (by decide) rfl (reports_grown _ l entry)
      (List.Sublist.refl _) hnew rfl ?_)
    intro b step q hq
    cases step with
    | command i =>
      rcases getElem?_grown hq with hold | rfl
      · exact .inl hold
      · exact .inr (hnew.fresh_part (s := .statement))

theorem tellScene_mirrors (l : ListEditor SceneNode) (m : Scene)
    (hown : l.gap.emitted < f.size) : Mirrors f l ⟨.scenes, .here⟩
      (append (Site.recount f.emittedAt .scenes l) m) (l.tellScene m f) := by
  unfold tellScene Rewired.telling
  obtain ⟨e, hlinked, hplain⟩ | ⟨entry, g, hnew, hlinked, hplain⟩ :=
    wireAppend_grown SceneNode.counts hown m
  · rw [hlinked, Site.recount, hplain]
    exact .refused e
  · rw [hlinked, Site.recount, hplain]
    refine .told (relinks_here (s := .scenes) (by decide) rfl (reports_grown _ l entry)
      (List.Sublist.refl _) hnew rfl ?_)
    intro b step q hq
    cases step with
    | scene i =>
      rcases getElem?_grown hq with hold | rfl
      · exact .inl hold
      · exact .inr (hnew.fresh_part (s := .scene))

end ListEditor

/-! ### Every action -/

namespace Action

variable {k : Family}

theorem fill_mirrors (c : Component) (p : Slot k) (hown : p.frame.emitted < f.size) :
    Mirrors f p ⟨.slot k, .here⟩ ((fill c).on (.slot k) (Site.recount f.emittedAt (.slot k) p))
      ((fill c).wire (.slot k) p f) := by
  simp only [on, wire]
  cases c.expr? k with
  | none => exact .refused _
  | some e => exact (Slot.tellFill_mirrors hown).lift

theorem fillComponent_mirrors (c : Component) (p : Slot k) (hown : p.frame.emitted < f.size) :
    Mirrors f p ⟨.slot k, .here⟩
      ((fillComponent c).on (.slot k) (Site.recount f.emittedAt (.slot k) p))
      ((fillComponent c).wire (.slot k) p f) := by
  simp only [on, wire, Slot.fillComponent]
  cases c.expr? k with
  | none => exact .refused _
  | some e => exact (Slot.tellFill_mirrors hown).lift

theorem append_mirrors (c : Component) {p : s.Part} (h : ∀ j ∈ (s.reports p).numbers, j < f.size) :
    Mirrors f p ((append c).way s) ((append c).on s (s.recount f.emittedAt p))
      ((append c).wire s p f) := by
  have hown := h _ (s.emitted_mem p)
  cases s with
  | commands =>
    simp only [on, wire]
    cases c.statement? with
    | none => exact .refused _
    | some m => exact (p.tellCommand_mirrors m hown).lift
  | scenes =>
    simp only [on, wire]
    cases c.scene? with
    | none => exact .refused _
    | some m => exact (p.tellScene_mirrors m hown).lift
  | sequence =>
    simp only [on, wire]
    cases c.statement? with
    | none => exact .refused _
    | some m =>
      have hcommands : Step.commands.get? p = some p.commands := rfl
      exact ((p.commands.tellCommand_mirrors m hown).inside hcommands).lift
  | act =>
    simp only [on, wire]
    cases c.scene? with
    | none => exact .refused _
    | some m =>
      have hscenes : Step.scenes.get? p = some p.scenes := rfl
      have hlist := h _ (Step.numbers_subset hscenes _ (Site.emitted_mem .scenes p.scenes))
      exact ((p.scenes.tellScene_mirrors m hlist).inside hscenes).lift
  | slot | node | statement | scene => exact .refused _

theorem appendComponent_mirrors (c : Component) {p : s.Part}
    (h : ∀ j ∈ (s.reports p).numbers, j < f.size) :
    Mirrors f p ((appendComponent c).way s) ((appendComponent c).on s (s.recount f.emittedAt p))
      ((appendComponent c).wire s p f) := by
  have hown := h _ (s.emitted_mem p)
  cases s with
  | commands =>
    simp only [on, wire, ListEditor.appendComponent, Entry.ofComponent?]
    cases c.statement? with
    | none => exact .refused _
    | some m => exact (p.tellCommand_mirrors m hown).lift
  | scenes =>
    simp only [on, wire, ListEditor.appendComponent, Entry.ofComponent?]
    cases c.scene? with
    | none => exact .refused _
    | some m => exact (p.tellScene_mirrors m hown).lift
  | slot | node | statement | scene | sequence | act => exact .refused _

/-- An action does the same to a part among the notifiers as to one that counts for itself. -/
theorem mirrors (x : Action) {p : s.Part} (h : ∀ j ∈ (s.reports p).numbers, j < f.size) :
    Mirrors f p (x.way s) (x.on s (s.recount f.emittedAt p)) (x.wire s p f) := by
  have hown := h _ (s.emitted_mem p)
  cases x with
  | setText text =>
    cases s with
    | node k => exact Node.setText_mirrors p text
    | _ => exact .refused _
  | setOperator symbol =>
    cases s with
    | node k => exact Node.setOperator_mirrors p symbol
    | _ => exact .refused _
  | selectVariable name =>
    cases s with
    | statement => exact StatementNode.selectVariable_mirrors p name
    | _ => exact .refused _
  | setTitle text =>
    cases s with
    | scene =>
      exact SceneNode.editComment_mirrors CommentBox.setTitle_tells (fun _ => rfl) fun _ => rfl
    | _ => exact .refused _
  | setComment text =>
    cases s with
    | scene =>
      exact SceneNode.editComment_mirrors CommentBox.setComment_tells (fun _ => rfl) fun _ => rfl
    | _ => exact .refused _
  | fill c =>
    cases s with
    | slot k => exact fill_mirrors c p hown
    | _ => exact .refused _
  | fillComponent c =>
    cases s with
    | slot k => exact fillComponent_mirrors c p hown
    | _ => exact .refused _
  | clear =>
    cases s with
    | slot k => exact Slot.clear_mirrors p
    | _ => exact .refused _
  | append c => exact append_mirrors c h
  | appendComponent c => exact appendComponent_mirrors c h

end Action

end SceneScript
