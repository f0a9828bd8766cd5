import SceneScript.Proofs.Editor.ReadOnly
import SceneScript.Proofs.Editor.Revisions

/-! What filling a slot comes to. A slot takes every expression of its family, whatever it held and
whether or not it can be edited. It then shows that expression, in parts that have its flag and no
highlights, and it is told once, as is everything around it. So a slot is empty exactly if its
script is a gap. -/

namespace SceneScript

variable {a b c : Site} {f : Family}

/-! ## Told on the way up -/

theorem Site.emitted_announce (hs : a ≠ .sequence) (o : Origin) (p : a.Part) :
    a.emitted (a.announce (some o) p) = a.emitted p + 1 := by
  cases a with
  | sequence => exact absurd rfl hs
  | slot f | node f | statement | scene => cases p <;> rfl
  | commands | scenes | act => rfl

namespace Path

/-- A change that a part announced is announced once by each part around it. -/
theorem emitted_put {path : Path a b} {p : a.Part} {old : b.Part} (h : path.get? p = some old)
    {e : Edited b.Part} {o : Origin} (ho : e.origin = some o)
    (he : b.emitted e.part = b.emitted old + 1) : a.emitted (path.put e p) = a.emitted p + 1 := by
  induction path with
  | here =>
    cases h
    exact he
  | @step a b' b s rest ih =>
    obtain ⟨part, hpart, hrest⟩ := Option.bind_eq_some_iff.mp h
    simp only [put, hpart, ho]
    by_cases ha : a = .sequence
    · subst ha
      -- a command sequence has no notifier but that of its list
      cases s
      cases hpart
      exact ih hrest ho he
    · rw [Site.emitted_announce ha, Step.emitted_put_of_ne ha]

/-- Between the two trees every part on a path, its ends included, has emitted once more. -/
def ToldOnce (path : Path a b) (p p' : a.Part) : Prop :=
  ∀ {c : Site} (outer : Path a c) (inner : Path c b), outer.append inner = path →
    ∃ q q', outer.get? p = some q ∧ outer.get? p' = some q' ∧ c.emitted q' = c.emitted q + 1

theorem toldOnce_put {path : Path a b} {p : a.Part} {old : b.Part} (h : path.get? p = some old)
    {e : Edited b.Part} {o : Origin} (ho : e.origin = some o)
    (he : b.emitted e.part = b.emitted old + 1) : path.ToldOnce p (path.put e p) := by
  rintro c outer inner rfl
  rw [get?_append] at h
  obtain ⟨q, hq, hold⟩ := Option.bind_eq_some_iff.mp h
  refine ⟨q, inner.put e q, hq, ?_, emitted_put hold ho he⟩
  rw [put_append hq]
  exact get?_put hq _

end Path

/-! ## New parts -/

def Widget.highlighted : Widget → Bool
  | target _ _ _ highlighted => highlighted
  | text _ | number _ | operator _ | name _ => false

theorem Widget.highlighted_setReadOnly (r : Bool) (w : Widget) :
    (w.setReadOnly r).highlighted = w.highlighted := by
  cases w <;> rfl

/-- A part has the flag that all its widgets have. -/
theorem Site.readOnly_eq {r : Bool} {s : Site} {p : s.Part}
    (h : ∀ w ∈ s.widgets p, w.readOnly = r) : s.readOnly p = r := by
  cases s with
  | slot f => cases p <;> exact h _ List.mem_cons_self
  | node f =>
    cases p with
    | number | operation | text | url => exact h _ List.mem_cons_self
    | title v | random v | related v => cases v <;> exact h _ List.mem_cons_self
  | statement => cases p <;> exact h _ List.mem_cons_self
  | scene => cases p <;> exact h _ List.mem_cons_self
  | commands | sequence | scenes | act =>
    exact h _ (List.mem_append_right _ (List.mem_singleton_self _))

namespace Slot

/-- Nothing that was built is highlighted. -/
theorem dark_ofExpr (e : Expr f) : ∀ w ∈ (ofExpr e).widgets, w.highlighted = false := by
  induction e with
  | gap => exact List.forall_mem_singleton.mpr rfl
  | number | text | url =>
    exact List.forall_mem_cons.mpr ⟨rfl, List.forall_mem_singleton.mpr rfl⟩
  | operation o a b iha ihb =>
    exact List.forall_mem_cons.mpr ⟨rfl, List.forall_mem_cons.mpr
      ⟨rfl, List.forall_mem_append.mpr ⟨iha, ihb⟩⟩⟩
  | titleOf v ih | randomFrom v ih | relatedTo v ih => exact List.forall_mem_cons.mpr ⟨rfl, ih⟩

/-- A slot after an expression was put into it. -/
structure Filled (s : Slot f) (e : Expr f) (filled : Slot f) : Prop where
  model : filled.model = e
  full : filled.isFull = true ↔ e.isGap = false
  readOnly : filled.frame.readOnly = s.frame.readOnly
  highlighted : filled.frame.highlighted = s.frame.highlighted
  emitted : filled.frame.emitted = s.frame.emitted + 1
  widgets : ∀ node, filled.occupant? = some node →
    ∀ w ∈ node.widgets, w.readOnly = s.frame.readOnly ∧ w.highlighted = false
  parts : ∀ node, filled.occupant? = some node →
    ∀ {b : Site} (path : Path (.node f) b) (q : b.Part), path.get? node = some q →
      b.readOnly q = s.frame.readOnly

/-- What filling leaves in place of a slot. -/
def refilled (s : Slot f) (e : Expr f) : Slot f :=
  (((ofExpr e).setReadOnly s.frame.readOnly).withFrame s.frame).announce (some .slotFilled)

theorem fill_eq (s : Slot f) (e : Expr f) :
    s.fill e = .ok ⟨s.refilled e, some .slotFilled⟩ := by
  rw [fill, Slot.new_eq]
  rfl

theorem frame_withFrame (frame : Frame) (s : Slot f) : (s.withFrame frame).frame = frame := by
  cases s <;> rfl

theorem occupant?_withFrame (frame : Frame) (s : Slot f) :
    (s.withFrame frame).occupant? = s.occupant? := by
  cases s <;> rfl

theorem frame_refilled (s : Slot f) (e : Expr f) :
    (s.refilled e).frame = s.frame.announce (some .slotFilled) := by
  rw [refilled, announce, frame_withFrame, frame_withFrame]

/-- The widgets of what was put into a slot have its flag and are not highlighted. -/
theorem widgets_refilled {s : Slot f} {e : Expr f} {node : Node f}
    (h : (s.refilled e).occupant? = some node) :
    ∀ w ∈ node.widgets, w.readOnly = s.frame.readOnly ∧ w.highlighted = false := by
  intro w hw
  rw [refilled, announce, occupant?_withFrame, occupant?_withFrame] at h
  have hmem : w ∈ Site.widgets (.slot f) (Site.setReadOnly s.frame.readOnly (.slot f) (ofExpr e)) :=
    Step.widgets_get? (a := .slot f) (s := .occupant) h hw
  refine ⟨Site.readOnly_widgets _ (.slot f) (ofExpr e) w hmem, ?_⟩
  rw [Site.widgets_setReadOnly] at hmem
  obtain ⟨v, hv, rfl⟩ := List.mem_map.mp hmem
  exact (v.highlighted_setReadOnly _).trans (dark_ofExpr e v hv)

theorem filled_refilled (s : Slot f) (e : Expr f) : s.Filled e (s.refilled e) := by
  have hmodel : (s.refilled e).model = e := Slot.model_fill (fill_eq s e)
  have hframe := s.frame_refilled e
  exact {
    model := hmodel
    full := by rw [Slot.isFull_eq, hmodel, Bool.not_eq_true']
    readOnly := by rw [hframe, Frame.announce]
    highlighted := by rw [hframe, Frame.announce]
    emitted := congrArg Frame.emitted hframe
    widgets := fun _ hnode => widgets_refilled hnode
    parts := fun _ hnode _ _ _ hq =>
      Site.readOnly_eq fun w hw => (widgets_refilled hnode w (Path.widgets_get? hq hw)).1 }

theorem fillInPlace_eq (s : Slot f) (e : Expr f) :
    fillInPlace e s = .of s (.ok ((), ⟨s.refilled e, some .slotFilled⟩)) := by
  refine (fill_performs e s).trans ?_
  dsimp only
  rw [fill_eq]
  rfl

theorem fillComponentInPlace_eq (s : Slot f) (e : Expr f) :
    fillComponentInPlace (.expr e) s = .of s (.ok ((), ⟨s.refilled e, some .slotFilled⟩)) := by
  have hfamily : (Component.expr e).expr? f = some e := dif_pos rfl
  refine (fillComponent_performs (.expr e) s).trans ?_
  simp only [fillComponent, hfamily, fill_eq]
  rfl

/-- Emptying a slot leaves what filling it with a gap leaves. -/
theorem clear_eq (s : Slot f) : s.clear =
    if s.model.isGap then .error (.slotNotOccupied (.expr f))
    else .ok ⟨s.refilled .gap, some .slotEmptied⟩ := by
  cases s with
  | empty frame => rfl
  | full frame node => cases node <;> rfl

/-- What a slot makes of what is put into it, and of being emptied.
- Filling it succeeds, with any expression of its family, and is announced once: at the slot, at
  every part around it, and at the document.
- It is full exactly if its script is no gap.
- Emptying it fails exactly if its script is a gap; otherwise it is filled with the gap. -/
theorem fill_exact (s : Slot f) :
    (∀ e : Expr f, ∃ filled, s.Filled e filled ∧
      fillInPlace e s = ⟨.ok (), filled, [.slotFilled]⟩ ∧
      fillComponentInPlace (.expr e) s = ⟨.ok (), filled, [.slotFilled]⟩ ∧
      (∀ {a : Site} (path : Path a (.slot f)) (p : a.Part) (missing : EditorError),
        path.get? p = some s → ∃ p', path.ToldOnce p p' ∧ path.get? p' = some filled ∧
          path.inPlace (fillInPlace e) missing p = ⟨.ok (), p', [.slotFilled]⟩) ∧
      ∀ (d : Document) (path : Path .act (.slot f)) (missing : EditorError),
        path.get? d.root = some s →
          (d.onRoot (path.inPlace (fillInPlace e) missing)).1.version = d.version + 1) ∧
    (s.isFull = true ↔ s.model.isGap = false) ∧
    (s.model.isGap = true →
      clearInPlace s = ⟨.error (.slotNotOccupied (.expr f)), s, []⟩) ∧
    (s.model.isGap = false → ∃ emptied, s.Filled .gap emptied ∧
      clearInPlace s = ⟨.ok (), emptied, [.slotEmptied]⟩) := by
  have hclear := clear_performs s
  rw [clear_eq] at hclear
  refine ⟨fun e => ?_, ?_, fun hgap => ?_, fun hfull => ?_⟩
  · have hfilled := s.filled_refilled e
    have hfill := fillInPlace_eq s e
    refine ⟨s.refilled e, hfilled, hfill, fillComponentInPlace_eq s e,
      fun path p missing hs => ?_, fun d path missing hs => ?_⟩
    · exact ⟨_, Path.toldOnce_put (e := ⟨s.refilled e, some .slotFilled⟩) hs rfl hfilled.emitted,
        Path.get?_put hs _, Path.inPlace_some hs hfill missing⟩
    · rw [Document.onRoot_of (Path.inPlace_some hs hfill missing)]
      rfl
  · rw [Slot.isFull_eq, Bool.not_eq_true']
  · rw [hclear, if_pos hgap]
    rfl
  · rw [hclear, hfull]
    exact ⟨_, s.filled_refilled .gap, rfl⟩

end Slot

end SceneScript
