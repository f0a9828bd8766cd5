import SceneScript.Editor.Document
import SceneScript.Proofs.Editor.Places
import SceneScript.Proofs.Script.RoundTrip

/-! Drops on targets. A drop that succeeds replaces one expression of the script, or adds one entry
at the end of a list; where, is told by the number of the target alone. -/

namespace SceneScript

/-- What stands at a target's place before and after it takes a component. -/
inductive Target.Takes (c : Component) : (t : Target) → t.site.Model → t.site.Model → Prop
  | slot {f : Family} (old new : Expr f) (h : c = .expr new) : Takes c (.slot f) old new
  | command (ss : List Statement) (s : Statement) (h : c = .statement s) :
    Takes c .commands ss (ss ++ [s])
  | scene (ss : List Scene) (s : Scene) (h : c = .scene s) : Takes c .scenes ss (ss ++ [s])

theorem Target.Takes.of_slot {f : Family} {c : Component} {old new : Expr f}
    (h : Takes c (.slot f) old new) : c = .expr new := by
  cases h with
  | slot _ _ h => exact h

theorem Target.isShown_model (t : Target) (m : t.site.Model) : t.site.isShown m = true := by
  cases t <;> rfl

theorem Component.eq_of_expr? {f : Family} {c : Component} {e : Expr f} (h : c.expr? f = some e) :
    c = .expr e := by
  cases c with
  | @expr g e' =>
    simp only [expr?] at h
    split at h
    · rename_i hfg
      cases hfg
      cases h
      rfl
    · cases h
  | _ => cases h

theorem Slot.model_fill {f : Family} {s : Slot f} {e : Expr f} {filled : Edited (Slot f)}
    (h : s.fill e = .ok filled) : filled.part.model = e := by
  rw [fill, Slot.new_eq] at h
  cases h
  simp only
  rw [Slot.model_announce, Slot.model_withFrame, Slot.model_setReadOnly, Slot.model_ofExpr]

/-- Whatever an expression is, a slot of its family takes it. -/
theorem Slot.fill_eq_ok {f : Family} (s : Slot f) (e : Expr f) :
    ∃ filled, s.fill e = .ok filled ∧ filled.part.model = e := by
  have hfill : ∃ filled, s.fill e = .ok filled := by
    rw [fill, Slot.new_eq]
    exact ⟨_, rfl⟩
  obtain ⟨filled, hfill⟩ := hfill
  exact ⟨filled, hfill, Slot.model_fill hfill⟩

/-- A list that grew by an entry, before and after. -/
theorem ListEditor.map_append {α β : Type} [Entry α] (model : α → β) {l : ListEditor α}
    {m : Entry.Model α} {e : Edited (ListEditor α)} (h : l.append m = .ok e) :
    ∃ entry, Entry.build m = .ok entry ∧ e.part.items.map model =
      l.items.map model ++ [model (Entry.setReadOnly l.gap.readOnly entry)] := by
  obtain ⟨entry, hentry, h⟩ := bind_eq_ok h
  cases h
  exact ⟨entry, hentry, List.map_append⟩

theorem ListEditor.model_appendStatement {l : ListEditor StatementNode} {s : Statement}
    {e : Edited (ListEditor StatementNode)} (h : l.append s = .ok e) :
    Site.commands.model e.part = Site.commands.model l ++ [s] := by
  obtain ⟨entry, hbuild, hitems⟩ := ListEditor.map_append StatementNode.model h
  refine hitems.trans (congrArg (_ ++ [·]) ?_)
  exact (Site.model_setReadOnly _ .statement entry).trans (StatementNode.built_of_build hbuild).model

theorem ListEditor.model_appendScene {l : ListEditor SceneNode} {s : Scene}
    {e : Edited (ListEditor SceneNode)} (h : l.append s = .ok e) :
    Site.scenes.model e.part = Site.scenes.model l ++ [s] := by
  obtain ⟨entry, hbuild, hitems⟩ := ListEditor.map_append SceneNode.model h
  refine hitems.trans (congrArg (_ ++ [·]) ?_)
  exact (Site.model_setReadOnly _ .scene entry).trans (SceneNode.built_of_build hbuild).model

theorem Target.takes_accept : ∀ (t : Target) {p : t.Part} {c : Component} {e : Edited t.Part},
    t.accept p c = .ok e → t.Takes c (t.site.model p) (t.site.model e.part)
  | .slot f, p, c, e, h => by
    simp only [accept, Slot.fillComponent] at h
    cases hc : c.expr? f with
    | none =>
      rw [hc] at h
      cases h
    | some new =>
      rw [hc] at h
      have hmodel : (Target.slot f).site.model e.part = new := Slot.model_fill h
      rw [hmodel]
      exact .slot _ new (Component.eq_of_expr? hc)
  | .commands, p, c, e, h => by
    cases c with
    | statement s => exact ListEditor.model_appendStatement h ▸ .command _ s rfl
    | _ => cases h
  | .scenes, p, c, e, h => by
    cases c with
    | scene s => exact ListEditor.model_appendScene h ▸ .scene _ s rfl
    | _ => cases h

/-! ## Gestures -/

theorem Payload.isKnown_of_decode {p : Payload} {c : Component} (h : p.decode = .ok c) :
    p.isKnown = true := by
  unfold decode at h
  split at h
  · assumption
  · cases h

/-- What can be decoded is let in exactly if it is acceptable. -/
theorem Target.dragEnter_of_decode {p : Payload} {c : Component} (h : p.decode = .ok c)
    (t : Target) (part : t.Part) :
    t.dragEnter part p = (t.isEnabled part && t.accepts c) := by
  simp only [dragEnter, h, Payload.isKnown_of_decode h, isAcceptable]
  cases t.isEnabled part <;> rfl

theorem Drag.resolve_dropped {p : Payload} {c : Component} (hc : p.decode = .ok c) {t : Target}
    {part : t.Part} {e : Edited t.Part} :
    Drag.resolve p t part = .ok (.dropped, e) ↔
      t.isEnabled part = true ∧ t.accepts c = true ∧ t.accept part c = .ok e := by
  unfold resolve
  rw [Target.dragEnter_of_decode hc, hc]
  cases t.isEnabled part with
  | false => simp
  | true =>
    cases t.accepts c with
    | false => simp
    | true =>
      constructor
      · intro h
        obtain ⟨_, ⟨⟩, h⟩ := bind_eq_ok h
        obtain ⟨e', he', h⟩ := bind_eq_ok h
        cases h
        exact ⟨rfl, rfl, he'⟩
      · rintro ⟨-, -, he⟩
        change (t.accept part c >>= fun e => .ok (DragOutcome.dropped, e)) = _
        rw [he]
        rfl

/-- A drop that succeeds: the target is there, enabled and of the right category, and what it
became is put back. -/
theorem Document.dropAt_dropped {d d' : Document} {drag drag' : Drag} {p : Payload} {c : Component}
    {i : Nat} (hp : drag.payload = some p) (hc : p.decode = .ok c) :
    d.dropAt drag i = (d', drag', .ok .dropped) ↔
      ∃ l e, Site.act.target? d.root i = some l ∧ l.place.target.isEnabled l.part = true ∧
        l.place.target.accepts c = true ∧ l.place.target.accept l.part c = .ok e ∧
        drag' = drag.finish .dropped ∧
        d' = (d.apply ⟨l.place.path.put e d.root, e.origin⟩).clearHighlights := by
  unfold dropAt Drag.dropAt Drag.isDragging
  rw [hp]
  cases hl : Site.act.target? d.root i with
  | none => simp [Document.settle]
  | some l =>
    simp only [Option.isSome_some, Bool.not_true, Bool.false_eq_true, if_false, Drag.dropAtPlace,
      Drag.dropOn, hp]
    constructor
    · intro h
      cases hr : Drag.resolve p l.place.target l.part with
      | error err =>
        rw [hr] at h
        cases h
      | ok r =>
        rw [hr] at h
        obtain ⟨outcome, e⟩ := r
        cases h
        obtain ⟨henabled, haccepts, haccept⟩ := (Drag.resolve_dropped hc).mp hr
        exact ⟨l, e, rfl, henabled, haccepts, haccept, rfl, rfl⟩
    · rintro ⟨_, e, ⟨⟩, henabled, haccepts, haccept, rfl, rfl⟩
      rw [(Drag.resolve_dropped hc).mpr ⟨henabled, haccepts, haccept⟩]
      rfl

theorem Document.model_ofAct {a : Act} {d : Document} (h : Document.ofAct a = .ok d) :
    d.model = a := by
  obtain ⟨root, hroot, h⟩ := bind_eq_ok h
  cases h
  exact (ActNode.built_of_build hroot).model

theorem Document.model_clearHighlights (d : Document) : d.clearHighlights.model = d.model :=
  ActNode.model_highlight _ d.root

theorem Document.root_apply (d : Document) (e : Edited ActNode) : (d.apply e).root = e.part := by
  unfold apply
  cases e.origin <;> rfl

theorem Document.model_apply (d : Document) (e : Edited ActNode) :
    (d.apply e).model = e.part.model := congrArg ActNode.model (d.root_apply e)

theorem Site.target?_eq_some {s : Site} {p : s.Part} {i : Nat} {l : Site.Located s}
    (h : s.target? p i = some l) :
    (s.places p)[i]? = some l.place ∧ l.place.path.get? p = some l.part := by
  obtain ⟨place, hplace, h⟩ := Option.bind_eq_some_iff.mp h
  obtain ⟨part, hpart, h⟩ := Option.bind_eq_some_iff.mp h
  cases h
  exact ⟨hplace, hpart⟩

/-- The script after an edit of a target is the script before with that place replaced. -/
theorem Document.model_edited (d : Document) {i : Nat} {l : Site.Located .act}
    (hl : Site.act.target? d.root i = some l) (e : Edited l.place.target.Part) :
    (d.apply ⟨l.place.path.put e d.root, e.origin⟩).clearHighlights.model =
      l.place.path.putModel (l.place.target.site.model e.part) d.model := by
  rw [model_clearHighlights, model_apply]
  exact l.place.path.model_put e (Site.target?_eq_some hl).2

/-- A drop that succeeds, in the script: what stood at the place of that number, and what the target
made of it. -/
theorem Document.dropAt_takes {d d' : Document} {drag drag' : Drag} {p : Payload} {c : Component}
    {i : Nat} (hp : drag.payload = some p) (hc : p.decode = .ok c)
    (h : d.dropAt drag i = (d', drag', .ok .dropped)) :
    ∃ place old new, d.model.places[i]? = some place ∧ place.path.model? d.model = some old ∧
      place.target.Takes c old new ∧ d'.model = place.path.putModel new d.model := by
  obtain ⟨l, e, hl, -, -, haccept, -, rfl⟩ := (dropAt_dropped hp hc).mp h
  obtain ⟨hplace, hpart⟩ := Site.target?_eq_some hl
  have hold : l.place.path.model? d.model = some (l.place.target.site.model l.part) :=
    Path.model?_of_get? hpart
  have hnumber : d.model.places[i]? = some l.place :=
    (congrArg (·[i]?) d.root.places_model).symm.trans hplace
  exact ⟨l.place, _, _, hnumber, hold, l.place.target.takes_accept haccept, d.model_edited hl e⟩

/-- A drop that succeeds replaces what stands at the place of that number in the script by what its
target takes, and leaves everything apart from it as it was. -/
theorem Document.dropAt_refines {d d' : Document} {drag drag' : Drag} {p : Payload} {c : Component}
    {i : Nat} (hp : drag.payload = some p) (hc : p.decode = .ok c)
    (h : d.dropAt drag i = (d', drag', .ok .dropped)) :
    ∃ place, d.model.places[i]? = some place ∧
      ∃ old new, place.path.model? d.model = some old ∧ place.target.Takes c old new ∧
        d'.model = place.path.putModel new d.model ∧ place.path.model? d'.model = some new ∧
        ∀ {b : Site} (other : Path .act b), place.path.Apart other →
          other.model? d'.model = other.model? d.model := by
  obtain ⟨place, old, new, hplace, hold, htakes, hput⟩ := dropAt_takes hp hc h
  have hshown := place.target.isShown_model new
  refine ⟨place, hplace, old, new, hold, htakes, hput, ?_, fun other hother => ?_⟩
  · rw [hput]
    exact place.path.model?_putModel hold hshown
  · rw [hput]
    exact hother.model?_putModel hold hshown

def sampleScene (text : Expr .text) : Scene := .text ⟨"a", "", .gap, ⟨[]⟩, ⟨[]⟩, text⟩

/-- A document of one scene, with nothing in its slots and lists. -/
def sampleDocument : Document :=
  ⟨⟨⟨[.text ⟨.new "a" "", .empty .new, ⟨⟨[], .new⟩⟩, ⟨⟨[], .new⟩⟩, 0⟩ (.empty .new)], .new⟩, 0⟩,
    0, false, []⟩

def sampleDrag : Drag := ⟨some (.encode (.expr (.text "b"))), []⟩

/-- The commands before the scene come first, so its text is the target with number 1. -/
theorem sampleDocument_dropAt :
    (Payload.encode (.expr (.text "b"))).decode = .ok (.expr (.text "b")) ∧
      ∃ d' drag', sampleDocument.dropAt sampleDrag 1 = (d', drag', .ok .dropped) ∧
        sampleDocument.model = ⟨[sampleScene .gap]⟩ ∧ d'.model = ⟨[sampleScene (.text "b")]⟩ := by
  have hp : sampleDrag.payload = some (.encode (.expr (.text "b"))) := rfl
  have hc : (Payload.encode (.expr (.text "b"))).decode = .ok (.expr (.text "b")) :=
    eq_ok_of_toOption ((Payload.decode_encode _).trans (Component.loaded?_writable
      (by simp [Component.literals, Expr.literals])
      ⟨by simp [Component.literals, Expr.literals], by decide⟩))
  have hdrop := (Document.dropAt_dropped (d := sampleDocument) (i := 1) hp hc).mpr
    ⟨_, _, rfl, rfl, rfl, rfl, rfl, rfl⟩
  refine ⟨hc, _, _, hdrop, rfl, ?_⟩
  obtain ⟨place, hplace, old, new, hold, htakes, hmodel, -⟩ := Document.dropAt_refines hp hc hdrop
  cases hplace
  rw [hmodel]
  cases htakes with
  | slot old new h =>
    cases h
    rfl

end SceneScript
