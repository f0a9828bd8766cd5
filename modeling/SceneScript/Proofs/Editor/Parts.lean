import SceneScript.Editor.Session

/-! Getting a part of a live tree, and putting one in its place. What was put somewhere is there,
the parts aside from it are as they were, and putting back what was there changes nothing. -/

namespace SceneScript

variable {a b b' c : Site}

/-! ## Nothing announced -/

theorem Node.announce_none : ∀ {f : Family} (n : Node f), n.announce none = n := by
  intro f n
  cases n <;> rfl

theorem StatementNode.announce_none (n : StatementNode) : n.announce none = n := by
  cases n <;> rfl

theorem SceneNode.announce_none (n : SceneNode) : n.announce none = n := by
  cases n <;> rfl

theorem Site.announce_none : ∀ (s : Site) (p : s.Part), s.announce none p = p
  | slot _, p => by cases p <;> rfl
  | node _, p => p.announce_none
  | statement, p => p.announce_none
  | commands, _ | sequence, _ | scenes, _ | act, _ => rfl
  | scene, p => p.announce_none

/-! ## Steps -/

namespace Step

theorem get?_announce (step : Step a b) (o : Option Origin) (p : a.Part) :
    step.get? (a.announce o p) = step.get? p := by
  cases step with
  | occupant | op1 | op2 | titleVideo | collection | relatedVideo | value => cases p <;> rfl
  | preCommands | postCommands | duration | text | source | offset => cases p <;> rfl
  | command i | scene i | commands | scenes => rfl

theorem get?_put {step : Step a b} {p : a.Part} {old : b.Part} (h : step.get? p = some old)
    (q : b.Part) : step.get? (step.put q p) = some q := by
  cases step with
  | occupant | op1 | op2 | titleVideo | collection | relatedVideo | value | text | source
  | offset =>
    cases p <;> first | rfl | cases h
  | command i | scene i =>
    obtain ⟨hi, -⟩ := List.getElem?_eq_some_iff.mp h
    exact List.getElem?_set_self hi
  | preCommands | postCommands | duration => cases p <;> rfl
  | commands | scenes => rfl

theorem get?_put_ne {step : Step a b} {other : Step a b'}
    (h : (⟨b', other⟩ : Σ b, Step a b) ≠ ⟨b, step⟩) (q : b.Part) (p : a.Part) :
    other.get? (step.put q p) = other.get? p := by
  cases step with
  | occupant | titleVideo | collection | relatedVideo | value | commands | scenes =>
    cases other
    exact absurd rfl h
  | op1 | op2 =>
    cases other with
    | op1 | op2 => first | exact absurd rfl h | cases p <;> rfl
  | command i =>
    cases other with
    | command j => exact List.getElem?_set_ne fun hij => h (by rw [hij])
  | scene i =>
    cases other with
    | scene j => exact List.getElem?_set_ne fun hij => h (by rw [hij])
  | preCommands | postCommands | duration | text | source | offset =>
    cases other <;> first | exact absurd rfl h | cases p <;> rfl

/-- Putting back what is there changes nothing. -/
theorem put_get? {s : Step a b} {p : a.Part} {q : b.Part}
    (h : s.get? p = some q) : s.put q p = p := by
  cases s with
  | occupant | op1 | op2 | titleVideo | collection | relatedVideo | value =>
    cases p <;> cases h
    rfl
  | preCommands | postCommands | duration | text | source | offset =>
    cases p <;> cases h <;> rfl
  | command i | scene i =>
    obtain ⟨hi, hitem⟩ := List.getElem?_eq_some_iff.mp h
    have hset : p.items.set i q = p.items := by rw [← hitem, List.set_getElem_self]
    exact congrArg (ListEditor.mk · p.gap) hset
  | commands | scenes =>
    cases h
    rfl

/-- A part that counts for itself does not count what is put inside it. -/
theorem emitted_put_of_ne (ha : a ≠ .sequence) (step : Step a b) (q : b.Part) (p : a.Part) :
    a.emitted (step.put q p) = a.emitted p := by
  cases step with
  | commands => exact absurd rfl ha
  | command i | scene i | scenes => rfl
  | _ => cases p <;> rfl

end Step

/-! ## Paths -/

namespace Path

theorem append_here (path : Path a b) : path.append .here = path := by
  induction path with
  | here => rfl
  | step s rest ih => exact congrArg (step s) ih

theorem append_assoc {d : Site} (p : Path a b) (q : Path b c) (r : Path c d) :
    (p.append q).append r = p.append (q.append r) := by
  induction p with
  | here => rfl
  | step s rest ih => exact congrArg (step s) (ih q)

theorem get?_append : ∀ {a : Site} (outer : Path a b) (inner : Path b c) (p : a.Part),
    (outer.append inner).get? p = (outer.get? p).bind inner.get?
  | _, here, _, _ => rfl
  | _, step s rest, inner, p => by
    simp only [append, get?]
    cases s.get? p with
    | none => rfl
    | some q => exact rest.get?_append inner q

theorem put_append {outer : Path a b} {inner : Path b c} {p : a.Part} {q : b.Part}
    (hq : outer.get? p = some q) (e : Edited c.Part) :
    (outer.append inner).put e p = outer.put ⟨inner.put e q, e.origin⟩ p := by
  induction outer with
  | here =>
    cases hq
    rfl
  | step s rest ih =>
    obtain ⟨part, hpart, hrest⟩ := Option.bind_eq_some_iff.mp hq
    simp only [append, put, hpart]
    rw [ih hrest]

/-- What was put somewhere is there. -/
theorem get?_put {path : Path a b} {p : a.Part} {old : b.Part} (h : path.get? p = some old)
    (e : Edited b.Part) : path.get? (path.put e p) = some e.part := by
  induction path with
  | here => rfl
  | step step rest ih =>
    obtain ⟨inner, hinner, hrest⟩ := Option.bind_eq_some_iff.mp h
    simp only [put, get?, hinner, Step.get?_announce, Step.get?_put hinner]
    exact ih hrest e

theorem put_get? {path : Path a b} {p : a.Part} {q : b.Part}
    (h : path.get? p = some q) : path.put ⟨q, none⟩ p = p := by
  induction path with
  | here =>
    cases h
    rfl
  | step s rest ih =>
    obtain ⟨inner, hinner, hrest⟩ := Option.bind_eq_some_iff.mp h
    simp only [put, hinner]
    rw [ih hrest, Step.put_get? hinner, Site.announce_none]

end Path

end SceneScript
