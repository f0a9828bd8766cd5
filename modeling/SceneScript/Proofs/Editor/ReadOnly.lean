import SceneScript.Proofs.Editor.Listing
import SceneScript.Proofs.Editor.Rebuilding

/-! Read-only scripts. The flag of a part reaches every control, slot and list gap inside it, and
what comes into a script later takes the flag the script has. So while it is set, nothing that is
done by hand changes anything: controls refuse, and targets take nothing that is dropped on them. -/

namespace SceneScript

/-! ## The flag of a part -/

section Flags

variable (r r' : Bool)

/-- Of two flags set one after the other, the second is all that is left. -/
theorem Site.setReadOnly_setReadOnly (s : Site) (p : s.Part) :
    s.setReadOnly r' (s.setReadOnly r p) = s.setReadOnly r' p := by
  simp only [setReadOnly_eq, relabel_relabel]
  rfl

theorem Site.readOnly_widgets (s : Site) (p : s.Part) :
    ∀ w ∈ s.widgets (s.setReadOnly r p), w.readOnly = r := by
  intro w hw
  rw [s.setReadOnly_eq, s.widgets_relabel] at hw
  obtain ⟨v, -, rfl⟩ := List.mem_map.mp hw
  exact v.readOnly_relabel _

end Flags

/-! ## Refusals -/

/-- The actions that work a control, as a user does. -/
def Action.isControlEdit : Action → Bool
  | setText _ | setOperator _ | selectVariable _ | setTitle _ | setComment _ => true
  | fill _ | fillComponent _ | clear | append _ | appendComponent _ => false

/-- What a user does: drags something onto a target, or works a control. -/
def Operation.isByHand : Operation → Bool
  | dropAt _ _ | dropOn _ _ => true
  | edit _ a => a.isControlEdit
  | setReadOnly _ | highlightFor _ | accept _ _ => false

/-- In a read-only script every control refuses, whatever it is given. -/
theorem Action.onModel_refused {a : Action} (h : a.isControlEdit = true) (s : Site) (m : s.Model) :
    ∃ f, a.onModel true s m = .error f := by
  cases a with
  | setText text =>
    cases s with
    | node f => cases m <;> exact ⟨_, rfl⟩
    | _ => exact ⟨_, rfl⟩
  | setOperator symbol =>
    cases s with
    | node f =>
      cases m with
      | operation o a b =>
        simp only [onModel, Expr.setOperator?]
        cases Operator.ofSymbol? symbol <;> exact ⟨_, rfl⟩
      | _ => exact ⟨_, rfl⟩
    | _ => exact ⟨_, rfl⟩
  | selectVariable name =>
    cases s with
    | statement =>
      simp only [onModel, Statement.selectVariable]
      by_cases hname : name ∈ variableNames
      · rw [if_pos hname]
        exact ⟨_, rfl⟩
      · rw [if_neg hname]
        exact ⟨_, rfl⟩
    | _ => exact ⟨_, rfl⟩
  | setTitle text | setComment text =>
    cases s with
    | scene => exact ⟨_, rfl⟩
    | _ => exact ⟨_, rfl⟩
  | fill | fillComponent | clear | append | appendComponent => cases h

theorem Action.on_refused {a : Action} (h : a.isControlEdit = true) {s : Site} {p : s.Part}
    (hp : s.Settled true p) : ∃ f, a.on s p = .error f := by
  obtain ⟨f, hf⟩ := onModel_refused h s (s.model p)
  have hmodel := (a.on_follows hp).model
  rw [hf] at hmodel
  cases hx : a.on s p with
  | error f => exact ⟨f, rfl⟩
  | ok e =>
    rw [hx] at hmodel
    cases hmodel

/-- A disabled target ends the drag and takes nothing. -/
theorem Drag.dropOn_disabled {drag : Drag} (h : drag.isDragging = true) {t : Target}
    {part : t.Part} (hpart : t.isEnabled part = false) :
    drag.dropOn t part =
      (drag.finish (.cancelled .readOnly), .ok (.cancelled .readOnly, ⟨part, none⟩)) := by
  obtain ⟨p, hp⟩ := Option.isSome_iff_exists.mp h
  simp only [dropOn, hp, resolve, hpart, Bool.not_false, if_true]

theorem Drag.dropAtPlace_disabled {drag : Drag} (h : drag.isDragging = true) {s : Site}
    {p : s.Part} {l : s.Located} (hl : l.place.path.get? p = some l.part)
    (hpart : l.place.target.isEnabled l.part = false) :
    drag.dropAtPlace p l =
      (drag.finish (.cancelled .readOnly), .ok (.cancelled .readOnly, ⟨p, none⟩)) := by
  simp only [dropAtPlace, dropOn_disabled h hpart, Path.put_get? hl]

/-! ## Read-only documents -/

namespace Document

variable {d : Document} (h : Site.act.Settled true d.root)

include h

theorem isEnabled_get? {place : Place .act} {part : place.target.Part}
    (hpart : place.path.get? d.root = some part) : place.target.isEnabled part = false :=
  Target.isEnabled_of_settled (h.get? hpart)

theorem targets_disabled : ∀ t ∈ d.targets, t.enabled = false := by
  intro t ht
  obtain ⟨i, hi⟩ := List.mem_iff_getElem?.mp ht
  rw [targets, Site.targets_getElem?] at hi
  obtain ⟨l, hl, rfl⟩ := Option.map_eq_some_iff.mp hi
  exact isEnabled_get? h (Site.target?_eq_some hl).2

theorem dropAt_readOnly {drag : Drag} (hdrag : drag.isDragging = true) {i : Nat}
    {l : Site.Located .act} (hl : Site.act.target? d.root i = some l) :
    d.dropAt drag i = (d.clearHighlights, drag.finish (.cancelled .readOnly),
      .ok (.cancelled .readOnly)) := by
  have hpart := (Site.target?_eq_some hl).2
  simp only [dropAt, Drag.dropAt, hdrag, Bool.not_true, Bool.false_eq_true, if_false, hl]
  rw [Drag.dropAtPlace_disabled hdrag hpart (isEnabled_get? h hpart)]
  rfl

theorem dropOn_readOnly {drag : Drag} (hdrag : drag.isDragging = true) {place : Place .act}
    (hplace : place.There d.root) :
    d.dropOn drag place =
      (d, .ok (.released (drag.finish (.cancelled .readOnly)) (.ok (.cancelled .readOnly)))) := by
  obtain ⟨part, hpart⟩ := hplace
  simp only [dropOn, hpart]
  rw [Drag.dropAtPlace_disabled hdrag hpart (isEnabled_get? h hpart)]
  rfl

theorem change_refused {b : Site} (path : Path .act b) {a : Action}
    (ha : a.isControlEdit = true) : ∃ f, d.change path (a.on b) = (d, .error f) := by
  unfold change
  cases hpart : path.get? d.root with
  | none => exact ⟨_, rfl⟩
  | some part =>
    obtain ⟨f, hf⟩ := Action.on_refused ha (h.get? hpart)
    dsimp only
    rw [hf]
    exact ⟨f, rfl⟩

theorem byHand_kept {op : Operation} (hop : op.isByHand = true) :
    (op.on d).1.model = d.model ∧ (op.on d).1.version = d.version ∧
      (op.on d).1.dirty = d.dirty := by
  have hends := op.ends d
  generalize op.on d = after at hends
  cases hends with
  | fault | missedOn => exact ⟨rfl, rfl, rfl⟩
  | missedAt after =>
    unfold settle
    cases after.isDragging with
    | true => exact ⟨rfl, rfl, rfl⟩
    | false => exact ⟨d.model_clearHighlights, rfl, rfl⟩
  | setReadOnly | highlighted | accepted => cases hop
  | droppedAt hl _ he =>
    have hdisabled := isEnabled_get? h (Site.target?_eq_some hl).2
    cases he.enabled.symm.trans hdisabled
  | droppedOn hpart _ he =>
    have hdisabled := isEnabled_get? h hpart
    cases he.enabled.symm.trans hdisabled
  | edited hpart he =>
    obtain ⟨f, hf⟩ := Action.on_refused hop (h.get? hpart)
    cases he.symm.trans hf

/-- Whatever a user does to a read-only script, it fails; what is left is the script as it was. -/
theorem byHand_run (ops : List Operation) (hops : ∀ op ∈ ops, op.isByHand = true) :
    (d.run ops).model = d.model ∧ (d.run ops).version = d.version ∧
      (d.run ops).dirty = d.dirty := by
  induction ops generalizing d with
  | nil => exact ⟨rfl, rfl, rfl⟩
  | cons op ops ih =>
    obtain ⟨hop, hrest⟩ := List.forall_mem_cons.mp hops
    -- the step changes nothing, so the next one meets a document that is settled in the same way
    have hkept := byHand_kept h hop
    have hflag : op.flag true = true := by
      cases op with
      | setReadOnly r => cases hop
      | _ => rfl
    have hsettled := op.settled h
    rw [hflag] at hsettled
    obtain ⟨hmodel, hversion, hdirty⟩ := ih hsettled hrest
    exact ⟨hmodel.trans hkept.1, hversion.trans hkept.2.1, hdirty.trans hkept.2.2⟩

end Document

/-- A document that no user can change: its targets are disabled and take nothing, a drag released
over one of them is cancelled, controls refuse, and any number of drops and control edits leaves the
script, the count of changes and the mark of unsaved ones alone. -/
structure Document.Frozen (d : Document) : Prop where
  disabled : ∀ t ∈ d.targets, t.enabled = false
  accepts_none : ∀ (place : Place .act) (part : place.target.Part),
    place.path.get? d.root = some part →
      (∀ c, place.target.isAcceptable part c = false) ∧
        ∀ p, place.target.dragEnter part p = false
  dropAt : ∀ drag : Drag, drag.isDragging = true → ∀ i < d.targets.length,
    d.dropAt drag i = (d.clearHighlights, drag.finish (.cancelled .readOnly),
      .ok (.cancelled .readOnly))
  dropOn : ∀ drag : Drag, drag.isDragging = true → ∀ place : Place .act, place.There d.root →
    d.dropOn drag place =
      (d, .ok (.released (drag.finish (.cancelled .readOnly)) (.ok (.cancelled .readOnly))))
  controls : ∀ {b : Site} (path : Path .act b) (a : Action), a.isControlEdit = true →
    ∃ f, d.change path (a.on b) = (d, .error f)
  byHand : ∀ ops : List Operation, (∀ op ∈ ops, op.isByHand = true) →
    (d.run ops).model = d.model ∧ (d.run ops).version = d.version ∧ (d.run ops).dirty = d.dirty

theorem Document.frozen {d : Document} (h : Site.act.Settled true d.root) : d.Frozen where
  disabled := targets_disabled h
  accepts_none place part hpart := by
    have hdisabled := isEnabled_get? h hpart
    refine ⟨fun c => ?_, fun p => ?_⟩
    · simp only [Target.isAcceptable, hdisabled, Bool.false_and]
    · simp only [Target.dragEnter, hdisabled, Bool.false_and]
  dropAt drag hdrag i hi := by
    have hlisted : (Site.act.targets d.root)[i]? = some d.targets[i] := List.getElem?_eq_getElem hi
    rw [Site.targets_getElem?] at hlisted
    obtain ⟨l, hl, -⟩ := Option.map_eq_some_iff.mp hlisted
    exact dropAt_readOnly h hdrag hl
  dropOn _ hdrag _ hplace := dropOn_readOnly h hdrag hplace
  controls path _ ha := change_refused h path ha
  byHand := byHand_run h

/-- The flag set on a part is the flag of all its controls, slots and list gaps, whatever they had
before. In an opened script each of them has the flag last given, after any run of operations; and
where that is read-only, the script is frozen. -/
theorem Document.readOnly_everywhere {a : Act} {opened : Document}
    (h : Document.ofAct a = .ok opened) :
    (∀ (s : Site) (p : s.Part) (r r' : Bool),
      (∀ w ∈ s.widgets (s.setReadOnly r' p), w.readOnly = r') ∧
        s.setReadOnly r' (s.setReadOnly r p) = s.setReadOnly r' p) ∧
    ∀ ops : List Operation,
      (∀ w ∈ (opened.run ops).root.widgets, w.readOnly = lastFlag ops false) ∧
        (lastFlag ops false = true → (opened.run ops).Frozen) := by
  refine ⟨fun s p r r' => ⟨s.readOnly_widgets r' p, s.setReadOnly_setReadOnly r r' p⟩, ?_⟩
  intro ops
  have hsettled := settled_run (settled_ofAct h) ops
  refine ⟨fun w hw => (hsettled w hw).readOnly, fun hflag => ?_⟩
  rw [hflag] at hsettled
  exact frozen hsettled

theorem sampleHistory_frozen :
    Document.ofAct ⟨[sampleScene .gap]⟩ = .ok sampleDocument ∧
      (sampleDocument.run sampleHistory).Frozen ∧
        (sampleDocument.run sampleHistory).targets.length = 5 := by
  have hopened : Document.ofAct ⟨[sampleScene .gap]⟩ = .ok sampleDocument := rfl
  obtain ⟨-, hruns⟩ := Document.readOnly_everywhere hopened
  exact ⟨hopened, (hruns sampleHistory).2 rfl, rfl⟩

end SceneScript
