import SceneScript.Proofs.Editor.Drop
import SceneScript.Proofs.Editor.Operations
import SceneScript.Proofs.Editor.Parts

/-! How releases and operations end. A release that drops has put what the drag carries where it was
released, and one that does not has left everything as it was. An operation has changed one thing,
or it failed; then nothing is another than before, but for highlights. -/

namespace SceneScript

variable {α : Type} {b s : Site}

/-! ## Releases -/

/-- The component a drag carries, if it can be read. -/
def Drag.carried? (d : Drag) : Option Component := d.payload.bind (·.decode.toOption)

/-- A target that lets a component in: it is enabled and of that category, and takes it. -/
structure Target.Admits (t : Target) (part : t.Part) (c : Component) (e : Edited t.Part) :
    Prop where
  enabled : t.isEnabled part = true
  accepts : t.accepts c = true
  accept : t.accept part c = .ok e

/-- How a release over a part ends: a drop is all that leaves another part. -/
inductive Drag.Release.Ends (drag : Drag) (part : α) (takes : Component → Edited α → Prop) :
    Release α → Prop
  | missed (after : Drag) (result : Except EditorError CancelReason) :
    Ends drag part takes (after, result.map fun reason => (.cancelled reason, ⟨part, none⟩))
  | dropped {c : Component} {e : Edited α} (hc : drag.carried? = some c) (he : takes c e) :
    Ends drag part takes (drag.finish .dropped, .ok (.dropped, e))

namespace Drag

/-- A target hands on a payload that can be read and that it would accept, and cancels any other. -/
theorem resolve_cases (p : Payload) (t : Target) (part : t.Part) :
    (∃ reason, resolve p t part = .ok (.cancelled reason, ⟨part, none⟩)) ∨
      ∃ c, p.decode = .ok c ∧ t.isEnabled part = true ∧ t.accepts c = true ∧
        resolve p t part = (t.accept part c).map fun e => (.dropped, e) := by
  unfold resolve
  split
  · exact .inl ⟨_, rfl⟩
  split
  · exact .inl ⟨_, rfl⟩
  · rename_i henabled henter
    rw [Bool.not_eq_true', Bool.not_eq_false] at henabled henter
    cases hc : p.decode with
    | error f => simp [Target.dragEnter, hc] at henter
    | ok c =>
      rw [Target.dragEnter_of_decode hc, henabled, Bool.true_and] at henter
      refine .inr ⟨c, rfl, henabled, henter, ?_⟩
      rw [bind_ok]
      cases t.accept part c <;> rfl

theorem dropOn_ends (drag : Drag) (t : Target) (part : t.Part) :
    Release.Ends drag part (t.Admits part) (drag.dropOn t part) := by
  unfold dropOn
  cases hp : drag.payload with
  | none => exact .missed drag (.error _)
  | some p =>
    dsimp only
    obtain ⟨reason, hresolve⟩ | ⟨c, hc, henabled, haccepts, hresolve⟩ := resolve_cases p t part
    · rw [hresolve]
      exact .missed _ (.ok reason)
    · rw [hresolve]
      cases he : t.accept part c with
      | error f => exact .missed _ (.error f)
      | ok e =>
        have hcarried : drag.carried? = some c := by simp [carried?, hp, hc, Except.toOption]
        exact .dropped hcarried ⟨henabled, haccepts, he⟩

theorem dropAtPlace_ends (drag : Drag) {p : s.Part} {l : s.Located}
    (hl : l.place.path.get? p = some l.part) :
    Release.Ends drag p (fun c e => ∃ inner, l.place.target.Admits l.part c inner ∧
      e = ⟨l.place.path.put inner p, inner.origin⟩) (drag.dropAtPlace p l) := by
  have hends := drag.dropOn_ends l.place.target l.part
  unfold dropAtPlace
  generalize drag.dropOn l.place.target l.part = r at hends
  cases hends with
  | missed after result =>
    cases result with
    | error f => exact .missed after (.error f)
    | ok reason =>
      have hback : l.place.path.put ⟨l.part, none⟩ p = p := Path.put_get? hl
      dsimp only [Except.map]
      rw [hback]
      exact .missed after (.ok reason)
  | dropped hc he => exact .dropped hc ⟨_, he, rfl⟩

end Drag

/-! ## Operations -/

/-- Nothing came of an operation: a fault, or a release that was refused or failed. -/
def Failed : Except SessionFault Reply → Prop
  | .error _ => True
  | .ok (.released _ outcome) => outcome ≠ .ok .dropped
  | .ok _ => False

/-- A release by number that leaves no drag active takes the highlights with it. -/
def Operation.dims : Operation → Except SessionFault Reply → Bool
  | dropAt _ _, .ok (.released drag _) => !drag.isDragging
  | _, _ => false

/-- How an operation ends: with a fault, with a release for nothing, or with the one thing that it
does. -/
inductive Operation.Ends (d : Document) : Operation → Document.After → Prop
  | fault (op : Operation) (f : SessionFault) : Ends d op (d, .error f)
  | missedAt {drag : Drag} {i : Nat} (after : Drag) (result : Except EditorError CancelReason) :
    Ends d (.dropAt drag i) (d.settle after, .ok (.released after (result.map .cancelled)))
  | missedOn {drag : Drag} {place : Place .act} (after : Drag)
    (result : Except EditorError CancelReason) :
    Ends d (.dropOn drag place) (d, .ok (.released after (result.map .cancelled)))
  | setReadOnly (r : Bool) : Ends d (.setReadOnly r) (d.setReadOnly r, .ok .done)
  | highlighted {p : Payload} {c : Component} (hc : p.decode = .ok c) (count : Nat) :
    Ends d (.highlightFor p)
      ({ d with root := d.root.highlight (· == c.category) }, .ok (.highlighted count))
  | droppedAt {drag : Drag} {i : Nat} {l : Site.Located .act} {c : Component}
    {e : Edited l.place.target.Part} (hl : Site.act.target? d.root i = some l)
    (hc : drag.carried? = some c) (he : l.place.target.Admits l.part c e) :
    Ends d (.dropAt drag i)
      ((d.apply ⟨l.place.path.put e d.root, e.origin⟩).clearHighlights,
        .ok (.released (drag.finish .dropped) (.ok .dropped)))
  | droppedOn {drag : Drag} {place : Place .act} {part : place.target.Part} {c : Component}
    {e : Edited place.target.Part} (hpart : place.path.get? d.root = some part)
    (hc : drag.carried? = some c) (he : place.target.Admits part c e) :
    Ends d (.dropOn drag place)
      (d.apply ⟨place.path.put e d.root, e.origin⟩,
        .ok (.released (drag.finish .dropped) (.ok .dropped)))
  | accepted {place : Place .act} {part : place.target.Part} {c : Component}
    {e : Edited place.target.Part} (hpart : place.path.get? d.root = some part)
    (he : place.target.accept part c = .ok e) :
    Ends d (.accept place c) (d.apply ⟨place.path.put e d.root, e.origin⟩, .ok .done)
  | edited {b : Site} {path : Path .act b} {part : b.Part} {x : Action} {e : Edited b.Part}
    (hpart : path.get? d.root = some part) (he : x.on b part = .ok e) :
    Ends d (.edit path x) (d.apply ⟨path.put e d.root, e.origin⟩, .ok .done)

namespace Document

/-- A release by number leaves the document as it was, but for highlights; or the target with that
number has what the drag carries, and the highlights are gone. -/
theorem dropAt_cases (d : Document) (drag : Drag) (i : Nat) :
    (∃ (after : Drag) (result : Except EditorError CancelReason),
      d.dropAt drag i = (d.settle after, after, result.map .cancelled)) ∨
    ∃ l c e, Site.act.target? d.root i = some l ∧ drag.carried? = some c ∧
      l.place.target.Admits l.part c e ∧
      d.dropAt drag i = ((d.apply ⟨l.place.path.put e d.root, e.origin⟩).clearHighlights,
        drag.finish .dropped, .ok .dropped) := by
  unfold dropAt Drag.dropAt
  cases hdragging : drag.isDragging with
  | false => exact .inl ⟨drag, .error .noActiveDrag, rfl⟩
  | true =>
    simp only [Bool.not_true, Bool.false_eq_true, if_false]
    cases hl : Site.act.target? d.root i with
    | none => exact .inl ⟨drag, .error (.noSuchTarget i), rfl⟩
    | some l =>
      have hends := drag.dropAtPlace_ends (s := .act) (Site.target?_eq_some hl).2
      dsimp only
      generalize Drag.dropAtPlace (s := .act) drag d.root l = r at hends
      cases hends with
      | missed after result =>
        refine .inl ⟨after, result, ?_⟩
        cases result <;> rfl
      | dropped hc he =>
        obtain ⟨inner, he, rfl⟩ := he
        exact .inr ⟨l, _, inner, rfl, hc, he, rfl⟩

theorem dropOn_ends (d : Document) (drag : Drag) (place : Place .act) :
    Operation.Ends d (.dropOn drag place) (d.dropOn drag place) := by
  unfold dropOn
  cases hpart : place.path.get? d.root with
  | none => exact .fault _ _
  | some part =>
    have hends := drag.dropAtPlace_ends (s := .act) (l := ⟨place, part⟩) hpart
    dsimp only
    generalize Drag.dropAtPlace (s := .act) drag d.root ⟨place, part⟩ = r at hends
    cases hends with
    | missed after result =>
      cases result with
      | error f => exact .missedOn after (.error f)
      | ok reason => exact .missedOn after (.ok reason)
    | dropped hc he =>
      obtain ⟨inner, he, rfl⟩ := he
      exact .droppedOn hpart hc he

/-- An edit of a part that is there is made, or it fails. -/
theorem change_cases (d : Document) (path : Path .act b)
    (edit : b.Part → Except SessionFault (Edited b.Part)) :
    (∃ f, d.change path edit = (d, .error f)) ∨
      ∃ part e, path.get? d.root = some part ∧ edit part = .ok e ∧
        d.change path edit = (d.apply ⟨path.put e d.root, e.origin⟩, .ok .done) := by
  unfold change
  cases hpart : path.get? d.root with
  | none => exact .inl ⟨_, rfl⟩
  | some part =>
    dsimp only
    cases he : edit part with
    | error f => exact .inl ⟨f, rfl⟩
    | ok e => exact .inr ⟨part, e, rfl, he, rfl⟩

end Document

/-- There is no other way to end. -/
theorem Operation.ends (op : Operation) (d : Document) : op.Ends d (op.on d) := by
  cases op with
  | setReadOnly r => exact .setReadOnly r
  | highlightFor p =>
    unfold on
    dsimp only
    cases hp : d.highlightFor p with
    | error f => exact .fault _ _
    | ok lit =>
      obtain ⟨c, hc, hlit⟩ := bind_eq_ok hp
      cases hlit
      exact .highlighted hc _
  | dropAt drag i =>
    unfold on
    dsimp only
    obtain ⟨after, result, hdrop⟩ | ⟨l, c, e, hl, hc, he, hdrop⟩ := d.dropAt_cases drag i
    · rw [hdrop]
      exact .missedAt after result
    · rw [hdrop]
      exact .droppedAt hl hc he
  | dropOn drag place => exact d.dropOn_ends drag place
  | accept place c =>
    unfold on
    dsimp only
    obtain ⟨f, hchange⟩ | ⟨part, e, hpart, he, hchange⟩ := d.change_cases place.path
      fun p => Action.lift (place.target.accept p c)
    · rw [hchange]
      exact .fault _ _
    · rw [hchange]
      exact .accepted hpart (mapError_eq_ok he)
  | edit path x =>
    unfold on
    dsimp only
    obtain ⟨f, hchange⟩ | ⟨part, e, hpart, he, hchange⟩ := d.change_cases path (x.on _)
    · rw [hchange]
      exact .fault _ _
    · rw [hchange]
      exact .edited hpart he

/-- A failed operation leaves the document as it was, but for the highlights of an ended drag. -/
theorem Operation.on_failed {op : Operation} {d : Document} (h : Failed (op.on d).2) :
    (op.on d).1 = if op.dims (op.on d).2 then d.clearHighlights else d := by
  have hends := op.ends d
  generalize op.on d = after at hends h
  cases hends with
  | fault op f => cases op <;> rfl
  | missedAt after result =>
    show d.settle after = if !after.isDragging then d.clearHighlights else d
    unfold Document.settle
    cases after.isDragging <;> rfl
  | missedOn => rfl
  | setReadOnly | highlighted | accepted | edited => exact absurd h id
  | droppedAt | droppedOn => exact absurd rfl h

end SceneScript
