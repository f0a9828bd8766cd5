import SceneScript.Proofs.Editor.Editing
import SceneScript.Proofs.Editor.Failure

/-! Trees of one script. Two settled trees with the same script and flag reply alike to every
operation, and are trees of one script again after it. So a tree keeps nothing of its history that
could ever be noticed: one built anew from its script does as well. -/

namespace SceneScript

variable {ε α β : Type} {r : Bool}

structure Site.Alike (r : Bool) (s : Site) (p p' : s.Part) : Prop where
  left : s.Settled r p
  right : s.Settled r p'
  model : s.model p = s.model p'

/-- Two results that are related, or failures for the same reason. -/
inductive Agree (R : α → β → Prop) : Except ε α → Except ε β → Prop
  | ok {a : α} {b : β} (h : R a b) : Agree R (.ok a) (.ok b)
  | error (f : ε) : Agree R (.error f) (.error f)

theorem Follows.agree {s : Site} {x x' : Except ε (Edited s.Part)} {m : Except ε s.Model}
    (h : Follows r s x m) (h' : Follows r s x' m) :
    Agree (fun e e' => s.Alike r e.part e'.part) x x' := by
  have hsame := h.model.trans h'.model.symm
  cases x with
  | error f =>
    cases x' with
    | error f' =>
      cases hsame
      exact .error f
    | ok e' => cases hsame
  | ok e =>
    cases x' with
    | error f' => cases hsame
    | ok e' => exact .ok ⟨h.settled e rfl, h'.settled e' rfl, Except.ok.inj hsame⟩

/-! ## Parts -/

namespace Site.Alike

variable {a b : Site} {p p' : a.Part} (h : a.Alike r p p')

include h

theorem get? (path : Path a b) : (path.get? p = none ∧ path.get? p' = none) ∨
    ∃ q q', path.get? p = some q ∧ path.get? p' = some q' ∧ b.Alike r q q' := by
  have hmodel : (path.get? p).map b.model = (path.get? p').map b.model := by
    rw [← path.model?_model, ← path.model?_model, h.model]
  cases hq : path.get? p with
  | none =>
    rw [hq, Option.map_none] at hmodel
    exact .inl ⟨rfl, Option.map_eq_none_iff.mp hmodel.symm⟩
  | some q =>
    rw [hq, Option.map_some] at hmodel
    obtain ⟨q', hq', hsame⟩ := Option.map_eq_some_iff.mp hmodel.symm
    exact .inr ⟨q, q', rfl, hq', h.left.get? hq, h.right.get? hq', hsame.symm⟩

theorem put {path : Path a b} {q q' : b.Part} {e e' : Edited b.Part} (hq : path.get? p = some q)
    (hq' : path.get? p' = some q') (he : b.Alike r e.part e'.part) :
    a.Alike r (path.put e p) (path.put e' p') where
  left := h.left.put he.left
  right := h.right.put he.right
  model := by rw [path.model_put e hq, path.model_put e' hq', he.model, h.model]

theorem relabel (m : Relabeling) :
    a.Alike (m.readOnly r) (a.relabel m p) (a.relabel m p') where
  left := h.left.relabel m
  right := h.right.relabel m
  model := by rw [a.model_relabel, a.model_relabel, h.model]

theorem setReadOnly (r' : Bool) : a.Alike r' (a.setReadOnly r' p) (a.setReadOnly r' p') := by
  rw [a.setReadOnly_eq, a.setReadOnly_eq]
  exact h.relabel (.setReadOnly r')

theorem highlight (wanted : Category → Bool) :
    a.Alike r (a.highlight wanted p) (a.highlight wanted p') := by
  rw [a.highlight_eq, a.highlight_eq]
  exact h.relabel (.highlight wanted)

/-- What follows from the script alone comes to the same in both. -/
theorem agree (edit : a.Part → Except ε (Edited a.Part)) {m : a.Model → Except ε a.Model}
    (hedit : ∀ p, a.Settled r p → Follows r a (edit p) (m (a.model p))) :
    Agree (fun e e' => a.Alike r e.part e'.part) (edit p) (edit p') := by
  have hleft := hedit p h.left
  rw [h.model] at hleft
  exact hleft.agree (hedit p' h.right)

end Site.Alike

/-! ## Targets -/

namespace Target

variable {t : Target} {p p' : t.Part}

theorem isEnabled_of_settled (h : t.site.Settled r p) : t.isEnabled p = !r := by
  cases t with
  | slot f => exact congrArg not (Slot.readOnly_frame h)
  | commands | scenes => exact congrArg not (ListEditor.settled_iff.mp h).2

variable (h : t.site.Alike r p p')

include h

theorem dragEnter_alike (payload : Payload) :
    t.dragEnter p payload = t.dragEnter p' payload := by
  unfold dragEnter isAcceptable
  rw [isEnabled_of_settled h.left, isEnabled_of_settled h.right]

/-- A slot shows something exactly if its script is no gap. -/
theorem isFull_alike : t.isFull p = t.isFull p' := by
  cases t with
  | slot f =>
    exact (Slot.isFull_eq p).trans
      ((congrArg (fun e => !Expr.isGap e) h.model).trans (Slot.isFull_eq p').symm)
  | commands | scenes => rfl

theorem info_alike (i : Nat) : (t.info i p).dim = (t.info i p').dim := by
  simp only [info, TargetInfo.dim]
  rw [isFull_alike h, isEnabled_of_settled h.left, isEnabled_of_settled h.right]

end Target

/-! ## Releases -/

/-- The same became of a drag and of what it carried. -/
inductive Drag.Release.Alike (r : Bool) (s : Site) : Release s.Part → Release s.Part → Prop
  | ok (drag : Drag) (outcome : DragOutcome) {e e' : Edited s.Part}
      (h : s.Alike r e.part e'.part) : Alike r s (drag, .ok (outcome, e)) (drag, .ok (outcome, e'))
  | error (drag : Drag) (f : EditorError) : Alike r s (drag, .error f) (drag, .error f)

namespace Drag

theorem resolve_agree {t : Target} {p p' : t.Part} (h : t.site.Alike r p p') (payload : Payload) :
    Agree (fun x x' => x.1 = x'.1 ∧ t.site.Alike r x.2.part x'.2.part) (resolve payload t p)
      (resolve payload t p') := by
  unfold resolve
  rw [Target.dragEnter_alike h, Target.isEnabled_of_settled h.left,
    Target.isEnabled_of_settled h.right]
  by_cases henabled : (!!r) = true
  · rw [if_pos henabled, if_pos henabled]
    exact .ok ⟨rfl, h⟩
  rw [if_neg henabled, if_neg henabled]
  by_cases henter : (!t.dragEnter p' payload) = true
  · rw [if_pos henter, if_pos henter]
    exact .ok ⟨rfl, h⟩
  rw [if_neg henter, if_neg henter]
  cases payload.decode with
  | error f => exact .error f
  | ok c =>
    have haccept := h.agree (t.accept · c) fun _ => Target.accept_follows c
    simp only [bind_ok]
    generalize t.accept p c = x at haccept ⊢
    generalize t.accept p' c = x' at haccept ⊢
    cases haccept with
    | ok he => exact .ok ⟨rfl, he⟩
    | error f => exact .error f

theorem dropOn_alike (drag : Drag) {t : Target} {p p' : t.Part} (h : t.site.Alike r p p') :
    Release.Alike r t.site (drag.dropOn t p) (drag.dropOn t p') := by
  unfold dropOn
  cases drag.payload with
  | none => exact .error drag _
  | some payload =>
    have hresolve := resolve_agree h payload
    dsimp only
    generalize resolve payload t p = x at hresolve ⊢
    generalize resolve payload t p' = x' at hresolve ⊢
    cases hresolve with
    | @ok x x' hx =>
      obtain ⟨outcome, e⟩ := x
      obtain ⟨outcome', e'⟩ := x'
      obtain ⟨rfl, he⟩ := hx
      exact .ok _ outcome he
    | error f => exact .error _ f

theorem dropAtPlace_alike (drag : Drag) {s : Site} {p p' : s.Part} (h : s.Alike r p p')
    {place : Place s} {q q' : place.target.Part} (hq : place.path.get? p = some q)
    (hq' : place.path.get? p' = some q') (hpart : place.target.site.Alike r q q') :
    Release.Alike r s (drag.dropAtPlace p ⟨place, q⟩) (drag.dropAtPlace p' ⟨place, q'⟩) := by
  have hdrop := drag.dropOn_alike hpart
  unfold dropAtPlace
  dsimp only
  generalize drag.dropOn place.target q = x at hdrop ⊢
  generalize drag.dropOn place.target q' = x' at hdrop ⊢
  cases hdrop with
  | ok drag outcome he => exact .ok drag outcome (h.put hq hq' he)
  | error drag f => exact .error drag f

end Drag

/-! ## Documents -/

theorem Site.Alike.places {a a' : ActNode} (h : Site.act.Alike r a a') : a.places = a'.places := by
  rw [a.places_model, a'.places_model]
  exact congrArg Act.places h.model

/-- Trees of one script list the same targets, highlights aside. -/
theorem Site.Alike.targets {a a' : ActNode} (h : Site.act.Alike r a a') :
    (Site.act.targets a).map TargetInfo.dim = (Site.act.targets a').map TargetInfo.dim := by
  have hinfo : ∀ x : Place .act × Nat,
      ((x.1.path.get? a).map (x.1.target.info x.2)).map TargetInfo.dim =
        ((x.1.path.get? a').map (x.1.target.info x.2)).map TargetInfo.dim := by
    intro x
    rcases h.get? x.1.path with ⟨hq, hq'⟩ | ⟨q, q', hq, hq', hpart⟩
    · rw [hq, hq']
    · rw [hq, hq']
      exact congrArg some (Target.info_alike hpart x.2)
  unfold Site.targets
  rw [List.map_filterMap, List.map_filterMap, Site.places, Site.places, h.places]
  exact congrArg (List.filterMap · _) (funext hinfo)

theorem Site.Alike.target? {a a' : ActNode} (h : Site.act.Alike r a a') (i : Nat) :
    (Site.act.target? a i = none ∧ Site.act.target? a' i = none) ∨
      ∃ (place : Place .act) (q q' : place.target.Part),
        Site.act.target? a i = some ⟨place, q⟩ ∧ Site.act.target? a' i = some ⟨place, q'⟩ ∧
          place.target.site.Alike r q q' := by
  unfold Site.target?
  rw [Site.places, Site.places, h.places]
  cases a'.places[i]? with
  | none => exact .inl ⟨rfl, rfl⟩
  | some place =>
    simp only [Option.bind_eq_bind, Option.bind_some]
    rcases h.get? place.path with ⟨hq, hq'⟩ | ⟨q, q', hq, hq', hpart⟩
    · rw [hq, hq']
      exact .inl ⟨rfl, rfl⟩
    · rw [hq, hq']
      exact .inr ⟨place, q, q', rfl, rfl, hpart⟩

/-- The documents are trees of one script, and the same was replied on the way to them. -/
structure Document.After.Alike (r : Bool) (x x' : After) : Prop where
  reply : x.2 = x'.2
  root : Site.act.Alike r x.1.root x'.1.root

namespace Document

variable {d d' : Document} (h : Site.act.Alike r d.root d'.root)

include h

theorem change_alike {b : Site} (path : Path .act b)
    {edit : b.Part → Except SessionFault (Edited b.Part)}
    (hedit : ∀ {q q'}, b.Alike r q q' →
      Agree (fun e e' => b.Alike r e.part e'.part) (edit q) (edit q')) :
    After.Alike r (d.change path edit) (d'.change path edit) := by
  unfold change
  rcases h.get? path with ⟨hq, hq'⟩ | ⟨q, q', hq, hq', hpart⟩
  · rw [hq, hq']
    exact ⟨rfl, h⟩
  · rw [hq, hq']
    have hagree := hedit hpart
    dsimp only
    generalize edit q = x at hagree ⊢
    generalize edit q' = x' at hagree ⊢
    cases hagree with
    | error f => exact ⟨rfl, h⟩
    | ok he =>
      refine ⟨rfl, ?_⟩
      dsimp only
      rw [root_apply, root_apply]
      exact h.put hq hq' he

theorem dropOn_alike (drag : Drag) (place : Place .act) :
    After.Alike r (d.dropOn drag place) (d'.dropOn drag place) := by
  unfold dropOn
  rcases h.get? place.path with ⟨hq, hq'⟩ | ⟨q, q', hq, hq', hpart⟩
  · rw [hq, hq']
    exact ⟨rfl, h⟩
  · rw [hq, hq']
    have hdrop := drag.dropAtPlace_alike h hq hq' hpart
    dsimp only
    generalize Drag.dropAtPlace (s := .act) drag d.root ⟨place, q⟩ = x at hdrop ⊢
    generalize Drag.dropAtPlace (s := .act) drag d'.root ⟨place, q'⟩ = x' at hdrop ⊢
    cases hdrop with
    | error drag f => exact ⟨rfl, h⟩
    | ok drag outcome he =>
      refine ⟨rfl, ?_⟩
      dsimp only
      rw [root_apply, root_apply]
      exact he

theorem settle_alike (drag : Drag) :
    Site.act.Alike r (d.settle drag).root (d'.settle drag).root := by
  unfold settle
  by_cases hdragging : drag.isDragging = true
  · rw [if_pos hdragging, if_pos hdragging]
    exact h
  · rw [if_neg hdragging, if_neg hdragging]
    exact Site.Alike.highlight h _

theorem dropAt_alike (drag : Drag) (i : Nat) :
    (d.dropAt drag i).2 = (d'.dropAt drag i).2 ∧
      Site.act.Alike r (d.dropAt drag i).1.root (d'.dropAt drag i).1.root := by
  unfold dropAt Drag.dropAt
  by_cases hdragging : (!drag.isDragging) = true
  · rw [if_pos hdragging, if_pos hdragging]
    exact ⟨rfl, settle_alike h drag⟩
  rw [if_neg hdragging, if_neg hdragging]
  rcases h.target? i with ⟨hl, hl'⟩ | ⟨place, q, q', hl, hl', hpart⟩
  · rw [hl, hl']
    exact ⟨rfl, settle_alike h drag⟩
  · rw [hl, hl']
    have hdrop := drag.dropAtPlace_alike h (Site.target?_eq_some hl).2 (Site.target?_eq_some hl').2
      hpart
    dsimp only
    generalize Drag.dropAtPlace (s := .act) drag d.root ⟨place, q⟩ = x at hdrop ⊢
    generalize Drag.dropAtPlace (s := .act) drag d'.root ⟨place, q'⟩ = x' at hdrop ⊢
    cases hdrop with
    | error drag f => exact ⟨rfl, settle_alike h drag⟩
    | @ok drag outcome e e' he =>
      have happly : Site.act.Alike r (d.apply e).root (d'.apply e').root := by
        rw [root_apply, root_apply]
        exact he
      exact ⟨rfl, settle_alike happly drag⟩

theorem highlightFor_alike (p : Payload) :
    After.Alike r ((Operation.highlightFor p).on d) ((Operation.highlightFor p).on d') := by
  simp only [Operation.on, highlightFor]
  cases p.decode with
  | error e => exact ⟨rfl, h⟩
  | ok c =>
    have hcount : ∀ a : ActNode, (Site.act.highlightAcceptable a c).2 =
        ((Site.act.targets a).map TargetInfo.dim).countP fun t =>
          t.enabled && c.category == t.category := by
      intro a
      rw [List.countP_map]
      rfl
    refine ⟨?_, Site.Alike.highlight h _⟩
    change Except.ok (Reply.highlighted (Site.act.highlightAcceptable d.root c).2) =
      .ok (.highlighted (Site.act.highlightAcceptable d'.root c).2)
    rw [hcount, hcount, h.targets]

end Document

/-! ## Runs -/

section Runs

variable {d d' : Document} (h : Site.act.Alike r d.root d'.root)

include h

/-- One operation: the same reply, and trees of one script again. -/
theorem Operation.on_alike (op : Operation) :
    Document.After.Alike (op.flag r) (op.on d) (op.on d') := by
  cases op with
  | setReadOnly r' => exact ⟨rfl, h.setReadOnly r'⟩
  | highlightFor p => exact Document.highlightFor_alike h p
  | dropAt drag i =>
    obtain ⟨hreply, hroot⟩ := Document.dropAt_alike h drag i
    exact ⟨congrArg (fun x : Drag × Except EditorError DragOutcome =>
      (Except.ok (.released x.1 x.2) : Except SessionFault Reply)) hreply, hroot⟩
  | dropOn drag place => exact Document.dropOn_alike h drag place
  | accept place c =>
    refine Document.change_alike h place.path fun hpart => ?_
    exact hpart.agree (fun p => Action.lift (place.target.accept p c))
      (m := fun m => Action.lift (place.target.acceptModel c m))
      fun _ hp => (Target.accept_follows c hp).lift
  | edit path a =>
    exact Document.change_alike h path fun hpart =>
      hpart.agree (a.on _) fun _ => a.on_follows

/-- A run of operations: the same replies, and trees of one script after each. -/
theorem Document.replies_alike (ops : List Operation) : d.replies ops = d'.replies ops := by
  -- an operation may set the flag, so the documents are alike for another flag after it
  induction ops generalizing r d d' with
  | nil => rfl
  | cons op ops ih =>
    have hop := op.on_alike h
    have hmodel : (op.on d).1.model = (op.on d').1.model := hop.root.model
    simp only [replies]
    rw [hop.reply, hmodel, ih hop.root]

end Runs

/-! ## Settled trees -/

/-- What every operation keeps. -/
theorem Operation.settled {d : Document} (h : Site.act.Settled r d.root) (op : Operation) :
    Site.act.Settled (op.flag r) (op.on d).1.root :=
  (op.on_alike ⟨h, h, rfl⟩).root.left

theorem Document.settled_run {d : Document} (h : Site.act.Settled r d.root)
    (ops : List Operation) : Site.act.Settled (lastFlag ops r) (d.run ops).root := by
  induction ops generalizing r d with
  | nil => exact h
  | cons op ops ih => exact ih (op.settled h)

/-! ## Building anew -/

/-- A choice of a variable is always one of the variables. -/
theorem VariableChoice.selected_mem (c : VariableChoice) : c.selected ∈ variableNames :=
  List.getElem_mem c.index.isLt

theorem StatementNode.variable_mem (n : StatementNode) : n.model.variable ∈ variableNames := by
  cases n with
  | get name n | set name value n => exact VariableChoice.selected_mem name

theorem SequenceNode.variables_mem {n : SequenceNode} {name : String}
    (h : name ∈ n.model.variables) : name ∈ variableNames := by
  obtain ⟨s, hs, rfl⟩ := List.mem_map.mp h
  obtain ⟨item, -, rfl⟩ := List.mem_map.mp hs
  exact item.variable_mem

theorem SceneNode.variables_mem {n : SceneNode} {name : String}
    (h : name ∈ n.model.variables) : name ∈ variableNames := by
  cases n with
  | text f t | video f source offset =>
    rcases List.mem_append.mp h with h | h
    · exact SequenceNode.variables_mem h
    · exact SequenceNode.variables_mem h

theorem ActNode.variables_mem {n : ActNode} {name : String} (h : name ∈ n.model.variables) :
    name ∈ variableNames := by
  obtain ⟨s, hs, hname⟩ := List.mem_flatMap.mp h
  obtain ⟨item, -, rfl⟩ := List.mem_map.mp hs
  exact SceneNode.variables_mem hname

/-- The script of a tree can always be opened. -/
theorem Document.ofAct_model (d : Document) : ∃ rebuilt, Document.ofAct d.model = .ok rebuilt := by
  obtain ⟨root, hroot⟩ := (ActNode.buildsWith d.model).exists_ok fun _ => ActNode.variables_mem
  refine ⟨⟨root, 0, false, []⟩, ?_⟩
  unfold ofAct
  rw [hroot]
  rfl

/-- After any run from an opened script, the script that is there can be opened anew; and the new
document, with the flag last given, replies to every further run as the old one does, with the same
script after each operation. -/
theorem Document.rebuilt_replies {a : Act} {opened : Document} (h : Document.ofAct a = .ok opened)
    (before : List Operation) :
    ∃ rebuilt, Document.ofAct (opened.run before).model = .ok rebuilt ∧
      (rebuilt.setReadOnly (lastFlag before false)).model = (opened.run before).model ∧
      ∀ after, (opened.run before).replies after =
        (rebuilt.setReadOnly (lastFlag before false)).replies after := by
  obtain ⟨rebuilt, hrebuilt⟩ := (opened.run before).ofAct_model
  have hold := settled_run (settled_ofAct h) before
  have hnew := (settled_ofAct hrebuilt).setReadOnly (lastFlag before false)
  have hmodel :
      (rebuilt.setReadOnly (lastFlag before false)).model = (opened.run before).model := by
    obtain ⟨root, hroot, hdoc⟩ := bind_eq_ok hrebuilt
    cases hdoc
    exact (root.model_setReadOnly _).trans (ActNode.built_of_build hroot).model
  exact ⟨rebuilt, hrebuilt, hmodel, replies_alike ⟨hold, hnew, hmodel.symm⟩⟩

/-- A text dropped into the scene of the sample, typed over, and the script locked. -/
def sampleHistory : List Operation :=
  [.accept ⟨.slot .text, .step .scenes (.step (.scene 0) (.step .text .here))⟩ (.expr (.text "b")),
   .edit (.step .scenes (.step (.scene 0) (.step .text (.step .occupant .here)))) (.setText "c"),
   .setReadOnly true]

theorem sampleHistory_rebuilt :
    Document.ofAct ⟨[sampleScene .gap]⟩ = .ok sampleDocument ∧
      ∃ rebuilt, Document.ofAct ⟨[sampleScene (.text "c")]⟩ = .ok rebuilt ∧
        ∀ after, (sampleDocument.run sampleHistory).replies after =
          (rebuilt.setReadOnly true).replies after := by
  have hopened : Document.ofAct ⟨[sampleScene .gap]⟩ = .ok sampleDocument := rfl
  obtain ⟨rebuilt, hrebuilt, -, hreplies⟩ := Document.rebuilt_replies hopened sampleHistory
  have hmodel : (sampleDocument.run sampleHistory).model = ⟨[sampleScene (.text "c")]⟩ := rfl
  rw [hmodel] at hrebuilt
  exact ⟨hopened, rebuilt, hrebuilt, hreplies⟩

end SceneScript
