import SceneScript.Proofs.Editor.InPlace
import SceneScript.Proofs.Editor.Notifiers
import SceneScript.Proofs.Editor.Releases
import SceneScript.Proofs.Editor.Widgets

/-! Operations that fail. A whole operation in place is an action or a release somewhere in the
tree, told to every part on the way and to the document. It comes to what the operation comes to,
and one that fails has left nothing behind; a drag that ends takes the highlights with it, and only
those. -/

namespace SceneScript

variable {ε δ σ α β : Type}

open InPlace

/-! ## Places -/

namespace Path

/-- Works on the part at the end of a path: every part on the way is told of each change. -/
def inPlace {a b : Site} (x : InPlace ε b.Part α) (missing : ε) : Path a b → InPlace ε a.Part α
  | here => x
  | step s rest => fun p =>
    match s.get? p with
    | none => fail missing p
    | some q => (rest.inPlace x missing q).into (s.put · p) a.announce

theorem inPlace_none {a b : Site} {path : Path a b} {p : a.Part} (h : path.get? p = none)
    (x : InPlace ε b.Part α) (missing : ε) : path.inPlace x missing p = fail missing p := by
  induction path with
  | here => cases h
  | step s rest ih =>
    simp only [inPlace]
    cases hinner : s.get? p with
    | none => rfl
    | some inner =>
      simp only [get?, hinner, Option.bind_some] at h
      simp only [ih h]
      exact congrArg (Left.mk _ · _) (Step.put_get? hinner)

theorem inPlace_some {a b : Site} {path : Path a b} {p : a.Part} {q : b.Part}
    (h : path.get? p = some q) {x : InPlace ε b.Part α} {r : Except ε (α × Edited b.Part)}
    (hx : x q = .of q r) (missing : ε) :
    path.inPlace x missing p = .of p (r.map fun (a, e) => (a, ⟨path.put e p, e.origin⟩)) := by
  induction path with
  | here =>
    cases h
    refine hx.trans ?_
    cases r <;> rfl
  | step s rest ih =>
    obtain ⟨inner, hinner, hrest⟩ := Option.bind_eq_some_iff.mp h
    simp only [inPlace, put, hinner]
    rw [ih hrest hx, Left.into_of (Site.announce_none _), Step.put_get? hinner]
    cases r <;> rfl

end Path

/-! ## Documents -/

namespace Document

/-- The document after a change was announced at its root. -/
def hear (d : Document) (o : Origin) : Document :=
  { d with version := d.version + 1, dirty := true, heard := d.heard.map (· ++ [o]) }

/-- Works on the tree of a document, which is told of each change. -/
def onRoot (d : Document) (x : InPlace ε ActNode α) : Document × Except ε α :=
  ((x d.root).heard.foldl hear { d with root := (x d.root).state }, (x d.root).result)

/-- The document after an edit of its tree, or as it was. -/
def applied (d : Document) : Except ε (α × Edited ActNode) → Document × Except ε α
  | .ok (a, e) => (d.apply e, .ok a)
  | .error f => (d, .error f)

theorem onRoot_of {d : Document} {x : InPlace ε ActNode α} {r : Except ε (α × Edited ActNode)}
    (h : x d.root = .of d.root r) : d.onRoot x = d.applied r := by
  unfold onRoot
  rw [h]
  rcases r with f | ⟨a, part, origin⟩
  · rfl
  · cases origin <;> rfl

def changeInPlace {b : Site} (d : Document) (path : Path .act b)
    (x : InPlace SessionFault b.Part Unit) : After :=
  let (after, result) := d.onRoot (path.inPlace x .notHere)
  (after, result.map fun _ => .done)

theorem changeInPlace_eq {b : Site} {x : InPlace SessionFault b.Part Unit}
    {edit : b.Part → Except SessionFault (Edited b.Part)} (h : x.Performs edit) (d : Document)
    (path : Path .act b) : d.changeInPlace path x = d.change path edit := by
  unfold changeInPlace change
  cases hpart : path.get? d.root with
  | none =>
    have hmissing := path.inPlace_none hpart x SessionFault.notHere
    rw [onRoot_of (r := .error .notHere) hmissing]
    rfl
  | some part =>
    rw [onRoot_of (Path.inPlace_some hpart (h part) _)]
    dsimp only
    cases edit part <;> rfl

end Document

/-! ## Drags -/

theorem InPlace.then_pure {x : InPlace ε σ α} {s : σ} {r : Except ε (α × Edited σ)}
    (h : x s = .of s r) (b : β) :
    (x >>= fun _ => pure b) s = .of s (r.map fun (_, e) => (b, e)) := by
  rcases r with f | ⟨a, e⟩
  · exact bind_of_error h _
  · refine (bind_of_ok h _).trans ?_
    simp only [pure_run, List.append_nil]
    rfl

theorem InPlace.attempt_bind (x : InPlace ε σ α) (f : Except ε α → InPlace δ σ β) (s : σ) :
    (attempt x >>= f) s = ⟨(f (x s).result (x s).state).result, (f (x s).result (x s).state).state,
      (x s).heard ++ (f (x s).result (x s).state).heard⟩ := rfl

namespace Drag

def resolveInPlace (p : Payload) (t : Target) : InPlace EditorError t.Part DragOutcome := do
  if !t.isEnabled (← look) then
    return .cancelled .readOnly
  if !t.dragEnter (← look) p then
    return .cancelled .rejected
  let c ← ofResult p.decode
  t.acceptInPlace c
  return .dropped

theorem resolveInPlace_eq (p : Payload) (t : Target) (part : t.Part) :
    resolveInPlace p t part = .of part (resolve p t part) := by
  unfold resolveInPlace resolve
  rw [look_bind]
  cases t.isEnabled part with
  | false => rfl
  | true =>
    simp only [Bool.not_true, Bool.false_eq_true, if_false, look_bind]
    cases t.dragEnter part p with
    | false => rfl
    | true =>
      simp only [Bool.not_true, Bool.false_eq_true, if_false]
      cases p.decode with
      | error e => rfl
      | ok c =>
        rw [ok_bind, then_pure (t.accept_performs c part), bind_ok]
        dsimp only
        cases t.accept part c <;> rfl

/-- A release by itself: what came of it, and the target after it. -/
def settled {t : Target} (part : t.Part) :
    Release t.Part → (Drag × Except EditorError DragOutcome) × Edited t.Part
  | (drag, .ok (outcome, e)) => ((drag, .ok outcome), e)
  | (drag, .error f) => ((drag, .error f), ⟨part, none⟩)

/-- The payload is taken before anything else, and the drag is over whatever the target does. -/
def dropOnInPlace (d : Drag) (t : Target) :
    InPlace ε t.Part (Drag × Except EditorError DragOutcome) :=
  match d.payload with
  | none => pure (d, .error .noActiveDrag)
  | some p => do
    let result ← attempt (resolveInPlace p t)
    match result with
    | .ok outcome => return (d.finish outcome, result)
    | .error _ => return (d.finish (.cancelled .rejected), result)

theorem dropOnInPlace_eq (d : Drag) (t : Target) (part : t.Part) :
    d.dropOnInPlace t part = (.of part (.ok (settled part (d.dropOn t part))) : Left ε _ _) := by
  unfold dropOnInPlace dropOn
  cases d.payload with
  | none => rfl
  | some p =>
    have hresolve := resolveInPlace_eq p t part
    dsimp only
    rw [attempt_bind, hresolve]
    rcases resolve p t part with f | ⟨outcome, e⟩
    · rfl
    · simp [Left.of, settled]

end Drag

namespace Document

def dropOnInPlace (d : Document) (drag : Drag) (place : Place .act) : After :=
  let (after, result) := d.onRoot (place.path.inPlace (drag.dropOnInPlace place.target) .notHere)
  (after, result.map fun (drag, outcome) => .released drag outcome)

/-- A document after a release, and what came of it. -/
def released (d : Document) :
    Drag.Release ActNode → Document × Except ε (Drag × Except EditorError DragOutcome)
  | (drag, .ok (outcome, e)) => (d.apply e, .ok (drag, .ok outcome))
  | (drag, .error f) => (d, .ok (drag, .error f))

theorem onRoot_dropOn {d : Document} {place : Place .act} {part : place.target.Part}
    (h : place.path.get? d.root = some part) (drag : Drag) (missing : ε) :
    d.onRoot (place.path.inPlace (drag.dropOnInPlace place.target) missing) =
      d.released (drag.dropAtPlace d.root ⟨place, part⟩) := by
  rw [onRoot_of (Path.inPlace_some h (Drag.dropOnInPlace_eq drag place.target part) missing)]
  unfold Drag.dropAtPlace
  dsimp only
  rcases drag.dropOn place.target part with ⟨drag', f | ⟨outcome, e⟩⟩
  · simp only [Drag.settled, Except.map, applied, apply, Path.put_get? h, released]
  · rfl

theorem dropOnInPlace_eq (d : Document) (drag : Drag) (place : Place .act) :
    d.dropOnInPlace drag place = d.dropOn drag place := by
  unfold dropOnInPlace dropOn
  cases hpart : place.path.get? d.root with
  | none =>
    have hmissing := place.path.inPlace_none hpart (drag.dropOnInPlace place.target)
      SessionFault.notHere
    rw [onRoot_of (r := .error .notHere) hmissing]
    rfl
  | some part =>
    rw [onRoot_dropOn hpart]
    dsimp only
    generalize Drag.dropAtPlace (s := .act) drag d.root ⟨place, part⟩ = r
    rcases r with ⟨drag', f | ⟨outcome, e⟩⟩ <;> rfl

/-- The release over the target with a number, before the highlights are looked after. -/
def releaseInPlace (d : Document) (drag : Drag) (i : Nat) :
    Document × Except EditorError (Drag × Except EditorError DragOutcome) :=
  match Site.act.target? d.root i with
  | none => (d, .error (.noSuchTarget i))
  | some l =>
    d.onRoot (l.place.path.inPlace (drag.dropOnInPlace l.place.target) (.noSuchTarget i))

def dropAtInPlace (d : Document) (drag : Drag) (i : Nat) :
    Document × Drag × Except EditorError DragOutcome :=
  if !drag.isDragging then (d.settle drag, drag, .error .noActiveDrag)
  else
    match d.releaseInPlace drag i with
    | (after, .ok (drag, outcome)) => (after.settle drag, drag, outcome)
    | (after, .error e) => (after.settle drag, drag, .error e)

theorem dropAtInPlace_eq (d : Document) (drag : Drag) (i : Nat) :
    d.dropAtInPlace drag i = d.dropAt drag i := by
  unfold dropAtInPlace dropAt Drag.dropAt releaseInPlace
  cases drag.isDragging with
  | false => rfl
  | true =>
    simp only [Bool.not_true, Bool.false_eq_true, if_false]
    cases hl : Site.act.target? d.root i with
    | none => rfl
    | some l =>
      dsimp only
      rw [onRoot_dropOn (Site.target?_eq_some hl).2]
      generalize Drag.dropAtPlace (s := .act) drag d.root l = r
      rcases r with ⟨drag', f | ⟨outcome, e⟩⟩ <;> rfl

def highlightForInPlace (d : Document) (p : Payload) : Document × Except EditorError Nat :=
  d.onRoot do
    let c ← ofResult p.decode
    let (lit, count) := Site.act.highlightAcceptable (← look) c
    assign fun _ => lit
    return count

theorem highlightForInPlace_eq (d : Document) (p : Payload) :
    d.highlightForInPlace p =
      match d.highlightFor p with
      | .ok (lit, count) => (lit, .ok count)
      | .error e => (d, .error e) := by
  unfold highlightForInPlace highlightFor onRoot
  cases p.decode <;> rfl

end Document

/-! ## Operations -/

namespace Operation

/-- An operation carried out in place. -/
def inPlace : Operation → Document → Document.After
  | setReadOnly r, d => (d.setReadOnly r, .ok .done)
  | highlightFor p, d =>
    let (after, count) := d.highlightForInPlace p
    (after, (Action.lift count).map .highlighted)
  | dropAt drag i, d =>
    let (after, drag, outcome) := d.dropAtInPlace drag i
    (after, .ok (.released drag outcome))
  | dropOn drag place, d => d.dropOnInPlace drag place
  | accept place c, d =>
    d.changeInPlace place.path ((place.target.acceptInPlace c).mapError .editor)
  | edit path a, d => d.changeInPlace path (a.inPlace _)

theorem inPlace_eq (op : Operation) (d : Document) : op.inPlace d = op.on d := by
  cases op with
  | setReadOnly r => rfl
  | highlightFor p =>
    dsimp only [inPlace, on]
    rw [d.highlightForInPlace_eq]
    cases d.highlightFor p <;> rfl
  | dropAt drag i =>
    dsimp only [inPlace, on]
    rw [d.dropAtInPlace_eq]
  | dropOn drag place => exact d.dropOnInPlace_eq drag place
  | accept place c => exact d.changeInPlace_eq (place.target.accept_performs c).lift place.path
  | edit path a => exact d.changeInPlace_eq (a.on_performs _) path

end Operation

/-! ## Without highlights -/

section Highlight

variable (wanted : Category → Bool)

/-- What stands somewhere in a part that was highlighted was highlighted with it. -/
theorem Path.get?_highlight {a b : Site} (path : Path a b) (p : a.Part) :
    path.get? (a.highlight wanted p) = (path.get? p).map (b.highlight wanted) := by
  rw [a.highlight_eq, path.get?_relabel, funext (b.highlight_eq wanted)]

theorem Target.info_highlight (t : Target) (i : Nat) (p : t.Part) :
    t.info i (t.site.highlight wanted p) =
      { t.info i p with highlighted := t.isEnabled p && wanted t.category } := by
  cases t with
  | slot f => cases p <;> rfl
  | commands | scenes => rfl

theorem Document.targets_highlight (a : ActNode) :
    Site.act.targets (a.highlight wanted) = (Site.act.targets a).map fun t =>
      { t with highlighted := t.enabled && wanted t.category } := by
  have hplaces : (a.highlight wanted).places = a.places := by
    rw [ActNode.places_model, ActNode.places_model, ActNode.model_highlight]
  have hget : ∀ place : Place .act, place.path.get? (a.highlight wanted) =
      (place.path.get? a).map (place.target.site.highlight wanted) :=
    fun place => place.path.get?_highlight wanted a
  unfold Site.targets
  simp only [Site.places, hplaces, hget, List.map_filterMap, Option.map_map, Function.comp_def,
    Target.info_highlight]
  rfl

end Highlight

/-! ## Failures -/

def Widget.dim : Widget → Widget
  | target t full readOnly _ => target t full readOnly false
  | w => w

def TargetInfo.dim (t : TargetInfo) : TargetInfo := { t with highlighted := false }

/-- The documents differ in nothing that can be seen, but for highlights that may have been cleared:
the script, the count of changes and whether any is unsaved, what each listener heard, how often
each notifier emitted, every control and target, and the listing of the targets. -/
structure Document.SameBut (cleared : Bool) (d d' : Document) : Prop where
  model : d'.model = d.model
  version : d'.version = d.version
  dirty : d'.dirty = d.dirty
  heard : d'.heard = d.heard
  reports : d'.root.reports = d.root.reports
  widgets : d'.root.widgets = d.root.widgets.map (if cleared then Widget.dim else id)
  targets : d'.targets = d.targets.map (if cleared then TargetInfo.dim else id)

theorem Document.sameBut_self (d : Document) : d.SameBut false d :=
  ⟨rfl, rfl, rfl, rfl, rfl, (List.map_id _).symm, (List.map_id _).symm⟩

theorem Document.sameBut_clearHighlights (d : Document) : d.SameBut true d.clearHighlights where
  model := d.model_clearHighlights
  version := rfl
  dirty := rfl
  heard := rfl
  reports := Site.reports_highlight _ .act d.root
  widgets := by
    have hdim : Widget.highlight (fun _ => false) = Widget.dim := by
      funext w
      cases w with
      | target t full readOnly highlighted => simp [Widget.highlight, Widget.dim]
      | _ => rfl
    exact (Site.widgets_highlight _ .act d.root).trans (by rw [hdim]; rfl)
  targets := by
    refine (targets_highlight _ d.root).trans (List.map_congr_left fun t _ => ?_)
    simp [TargetInfo.dim]

/-- Operations that run in place, announcing as they go, come to what their edits come to; and one
that fails, or releases a drag for nothing, leaves no trace. Only a release by number that ends its
drag clears the highlights. -/
theorem Operation.fails_without_trace (op : Operation) (d : Document) :
    op.inPlace d = op.on d ∧
      (Failed (op.inPlace d).2 → d.SameBut (op.dims (op.inPlace d).2) (op.inPlace d).1) := by
  refine ⟨op.inPlace_eq d, fun h => ?_⟩
  rw [op.inPlace_eq] at h ⊢
  rw [op.on_failed h]
  cases op.dims (op.on d).2 with
  | false => exact d.sameBut_self
  | true => exact d.sameBut_clearHighlights

/-- A scene whose commands name something that is no variable is not built, so the list of scenes
that was to take it is as it was. -/
def sampleUnknown : Scene := .text ⟨"b", "", .gap, ⟨[.get "x"]⟩, ⟨[]⟩, .gap⟩

def sampleAccept : Operation := .accept ⟨.scenes, .step .scenes .here⟩ (.scene sampleUnknown)

theorem sampleAccept_fails :
    (sampleAccept.inPlace sampleDocument).2 = .error (.editor (.unknownVariable "x")) ∧
      sampleDocument.SameBut false (sampleAccept.inPlace sampleDocument).1 := by
  obtain ⟨hsteps, hfails⟩ := sampleAccept.fails_without_trace sampleDocument
  have hreply : (sampleAccept.inPlace sampleDocument).2 =
      .error (.editor (.unknownVariable "x")) := by
    rw [hsteps]
    rfl
  have hsame := hfails (by rw [hreply]; trivial)
  rw [hreply] at hsame
  exact ⟨hreply, hsame⟩

end SceneScript
