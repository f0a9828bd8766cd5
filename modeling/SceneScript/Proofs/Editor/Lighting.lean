import SceneScript.Proofs.Editor.Growing
import SceneScript.Proofs.Editor.Highlights

/-! Which targets are highlighted. A payload that can be read highlights the targets that are
enabled and of its category, wherever they are, and no others; one that cannot leaves them alone.
Without a drag there are none. Nothing else in a document depends on them: of two documents that
are the same once the highlights are cleared, each is the other with other highlights. -/

namespace SceneScript

/-! ## Highlights set one after the other -/

section Highlight

variable (wanted wanted' : Category → Bool)

/-- Of two highlights set one after the other, the second is all that is left. -/
theorem Site.highlight_highlight (s : Site) (p : s.Part) :
    s.highlight wanted' (s.highlight wanted p) = s.highlight wanted' p := by
  simp only [highlight_eq, relabel_relabel]
  rfl

theorem Target.frame_highlight (t : Target) (part : t.Part) :
    t.frame (t.site.highlight wanted part) = (t.frame part).highlight (wanted t.category) := by
  rw [t.site.highlight_eq, t.frame_relabel]
  rfl

theorem Target.isEnabled_highlight (t : Target) (part : t.Part) :
    t.isEnabled (t.site.highlight wanted part) = t.isEnabled part := by
  rw [isEnabled, t.frame_highlight]
  rfl

end Highlight

/-! ## Highlighted targets -/

namespace Document

variable {d d' : Document}

/-- Exactly the targets that are enabled and of a category are highlighted, wherever they are. -/
def LitFor (d : Document) (category : Category) : Prop :=
  ∀ (place : Place .act) (part : place.target.Part), place.path.get? d.root = some part →
    ((place.target.frame part).highlighted = true ↔
      place.target.isEnabled part = true ∧ place.target.category = category)

/-- No target is highlighted, wherever it is. -/
def Dark (d : Document) : Prop :=
  ∀ (place : Place .act) (part : place.target.Part), place.path.get? d.root = some part →
    (place.target.frame part).highlighted = false

theorem litFor_lit (d : Document) (category : Category) : (d.lit category).LitFor category := by
  intro place lit hlit
  obtain ⟨part, -, rfl⟩ := Option.map_eq_some_iff.mp
    ((place.path.get?_highlight (· == category) d.root).symm.trans hlit)
  rw [Target.isEnabled_highlight, Target.frame_highlight]
  exact Bool.and_eq_true_iff.trans (and_congr_right' beq_iff_eq)

theorem dark_clearHighlights (d : Document) : d.clearHighlights.Dark := by
  intro place dark hdark
  obtain ⟨part, -, rfl⟩ := Option.map_eq_some_iff.mp
    ((place.path.get?_highlight (fun _ => false) d.root).symm.trans hdark)
  rw [Target.frame_highlight]
  exact Bool.and_false _

/-- Each target that is listed is a target of the tree. -/
theorem Dark.listed (h : d.Dark) : ∀ t ∈ d.targets, t.highlighted = false := by
  intro t ht
  obtain ⟨i, hi⟩ := List.mem_iff_getElem?.mp ht
  rw [targets, Site.targets_getElem?] at hi
  obtain ⟨l, hl, rfl⟩ := Option.map_eq_some_iff.mp hi
  exact h l.place l.part (Site.target?_eq_some hl).2

/-- What is counted while the targets are highlighted is what is listed as highlighted then. -/
theorem highlightFor_counts {p : Payload} {lit : Document} {n : Nat}
    (h : d.highlightFor p = .ok (lit, n)) :
    ∃ c, p.decode = .ok c ∧ lit = d.lit c.category ∧ n = lit.targets.countP (·.highlighted) := by
  obtain ⟨c, hc, h⟩ := bind_eq_ok h
  cases h
  refine ⟨c, hc, rfl, ?_⟩
  change (Site.act.targets d.root).countP _ = (d.lit c.category).targets.countP _
  rw [targets_lit, List.countP_map]
  refine List.countP_congr fun t _ => ?_
  simp [eq_comm (a := c.category)]

/-! ## Documents but for their highlights -/

/-- The documents differ in nothing but their highlights: the script, the count of changes and
whether any is unsaved, what each listener heard and how often each notifier emitted are the same;
and so is everything else, as the documents are the same without highlights. -/
structure Relit (d d' : Document) : Prop where
  model : d'.model = d.model
  version : d'.version = d.version
  dirty : d'.dirty = d.dirty
  heard : d'.heard = d.heard
  reports : d'.root.reports = d.root.reports
  cleared : d'.clearHighlights = d.clearHighlights

theorem Relit.refl (d : Document) : d.Relit d := ⟨rfl, rfl, rfl, rfl, rfl, rfl⟩

theorem relit_highlight (d : Document) (wanted : Category → Bool) :
    d.Relit { d with root := d.root.highlight wanted } where
  model := d.root.model_highlight wanted
  version := rfl
  dirty := rfl
  heard := rfl
  reports := Site.reports_highlight wanted .act d.root
  cleared := congrArg (fun root => { d with root }) (Site.highlight_highlight wanted _ .act d.root)

theorem relit_settle (d : Document) (drag : Drag) : d.Relit (d.settle drag) := by
  unfold settle
  split
  · exact .refl d
  · exact d.relit_highlight _

/-! ## Releases -/

/-- What a release by number comes to, but for highlights: the target with that number took what the
payload is read as, or nothing happened. -/
inductive Released (d : Document) (drag : Drag) (i : Nat) :
    Except EditorError DragOutcome → Document → Prop
  | taken {c : Component} {l : Site.Located .act} {e : Edited l.place.target.Part}
      (carried : drag.carried? = some c) (target : Site.act.target? d.root i = some l)
      (accept : l.place.target.accept l.part c = .ok e) :
      Released d drag i (.ok .dropped) (d.apply ⟨l.place.path.put e d.root, e.origin⟩)
  | kept {result : Except EditorError DragOutcome} (failed : result ≠ .ok .dropped) :
      Released d drag i result d

theorem dropAt_released (d : Document) (drag : Drag) (i : Nat) :
    ∃ released, d.Released drag i (d.dropAt drag i).2.2 released ∧
      (d.dropAt drag i).1 = released.settle (d.dropAt drag i).2.1 := by
  obtain ⟨after, result, hdrop⟩ | ⟨l, c, e, hl, hc, he, hdrop⟩ := d.dropAt_cases drag i
  · rw [hdrop]
    exact ⟨d, .kept (by cases result <;> nofun), rfl⟩
  · rw [hdrop]
    exact ⟨_, .taken hc hl he.accept, rfl⟩

/-- A drag that is still active was released nowhere. -/
theorem dropAt_active (d : Document) (drag : Drag) (i : Nat)
    (h : (d.dropAt drag i).2.1.isDragging = true) : (d.dropAt drag i).1 = d := by
  obtain ⟨after, result, hdrop⟩ | ⟨l, c, e, -, -, -, hdrop⟩ := d.dropAt_cases drag i
  · rw [hdrop] at h ⊢
    exact if_pos h
  · rw [hdrop] at h
    cases h

/-- What the highlights of a document are after each operation that sets or clears any.
- A payload that can be read highlights exactly the targets that are enabled and of its category;
  the reply is how many are listed as highlighted. One that cannot be read changes nothing.
- After a release by number there is no highlight without a drag; a drag that goes on leaves the
  document as it was.
- Nothing but highlights is changed by this, whatever else the release did. -/
theorem highlights_exact (d : Document) :
    (∀ p lit n, d.highlightForInPlace p = (lit, .ok n) → ∃ c, p.decode = .ok c ∧
      lit.LitFor c.category ∧ n = lit.targets.countP (·.highlighted) ∧ d.Relit lit) ∧
    (∀ p after f, d.highlightForInPlace p = (after, .error f) → p.decode = .error f ∧ after = d) ∧
    (∀ drag i after drag' result, d.dropAtInPlace drag i = (after, drag', result) →
      (drag'.isDragging = false → after.Dark ∧ ∀ t ∈ after.targets, t.highlighted = false) ∧
      (drag'.isDragging = true → after = d) ∧
      ∃ released, d.Released drag i result released ∧ released.Relit after) ∧
    d.clearHighlights.Dark ∧ d.Relit d.clearHighlights := by
  refine ⟨fun p lit n h => ?_, fun p after f h => ?_, fun drag i after drag' result h => ?_,
    d.dark_clearHighlights, d.relit_highlight _⟩
  · rw [d.highlightForInPlace_eq] at h
    cases hp : d.highlightFor p with
    | error e =>
      rw [hp] at h
      cases h
    | ok r =>
      obtain ⟨lit', n'⟩ := r
      rw [hp] at h
      cases h
      obtain ⟨c, hc, rfl, hn⟩ := highlightFor_counts hp
      exact ⟨c, hc, d.litFor_lit _, hn, d.relit_highlight _⟩
  · rw [d.highlightForInPlace_eq] at h
    cases hc : p.decode with
    | error e =>
      rw [highlightFor, hc] at h
      cases h
      exact ⟨rfl, rfl⟩
    | ok c =>
      obtain ⟨n, hlit⟩ := highlightFor_eq (d := d) hc
      rw [hlit] at h
      cases h
  · rw [d.dropAtInPlace_eq] at h
    obtain ⟨released, hreleased, hafter⟩ := d.dropAt_released drag i
    have hactive := d.dropAt_active drag i
    rw [h] at hreleased hafter hactive
    dsimp only at hreleased hafter hactive
    refine ⟨fun hdrag => ?_, hactive, released, hreleased, ?_⟩
    · have hdark : after.Dark := by
        rw [hafter, settle, hdrag]
        exact released.dark_clearHighlights
      exact ⟨hdark, hdark.listed⟩
    · rw [hafter]
      exact released.relit_settle drag'

end Document

end SceneScript
