import Mathlib.Data.List.Nodup
import Mathlib.Data.Sigma.Basic
import SceneScript.Proofs.Editor.Wiring

/-! Links between the notifiers of a tree. Following them from the notifier of a part leads through
those of the parts around it, the innermost first, to the owner. An edit of a part inside another
keeps the links of what stays, and adds notifiers no part has had before. -/

namespace SceneScript

open Reports

variable {a b b' c s t : Site} {f g : Forest} {owner : Nat}

/-! ## The notifiers around a part -/

/-- The notifier of a part's own; a command sequence has that of its list. -/
def Site.own : (s : Site) → s.Part → List Nat
  | sequence, _ => []
  | s, p => [s.emitted p]

/-- The notifiers of the parts around the one at the end of a path, the innermost first. -/
def Path.enclosing : {a b : Site} → Path a b → a.Part → List Nat
  | _, _, here, _ => []
  | a, _, step s rest, p => ((s.get? p).map rest.enclosing).getD [] ++ a.own p

theorem Site.own_of_ne (h : s ≠ .sequence) (p : s.Part) : s.own p = [s.emitted p] := by
  cases s <;> first | rfl | exact absurd rfl h

theorem Site.exists_reports : ∀ (s : Site) (p : s.Part),
    ∃ below, s.reports p = .mk (s.emitted p) below
  | node _, p => by cases p <;> exact ⟨_, rfl⟩
  | slot _, p | statement, p | scene, p => by cases p <;> exact ⟨_, rfl⟩
  | commands, _ | sequence, _ | scenes, _ | act, _ => ⟨_, rfl⟩

theorem Site.emitted_mem (s : Site) (p : s.Part) : s.emitted p ∈ (s.reports p).numbers := by
  obtain ⟨below, hreports⟩ := s.exists_reports p
  rw [hreports]
  exact List.mem_cons_self

theorem Reports.Linked.lt_size {r : Reports} (h : r.Linked f owner) : ∀ j ∈ r.numbers, j < f.size := by
  induction h with
  | mk hchain _ ih =>
    intro j hj
    rcases List.mem_cons.mp hj with rfl | hj
    · exact Forest.lt_size_of_chain hchain
    · obtain ⟨r, hr, hj⟩ := mem_numbersAll.mp hj
      exact ih r hr j hj

/-- A command sequence is seen as its list. -/
theorem Step.reports_sequence {step : Step .sequence b} {p : SequenceNode} {q : b.Part}
    (h : step.get? p = some q) :
    Site.sequence.reports p = b.reports q ∧ Site.sequence.emitted p = b.emitted q ∧
      (∀ q', Site.sequence.reports (step.put q' p) = b.reports q') ∧
      ∀ {b' : Site} (other : Step .sequence b'), (⟨b', other⟩ : Σ b, Step .sequence b) = ⟨b, step⟩ := by
  cases step
  cases h
  refine ⟨rfl, rfl, fun _ => rfl, fun other => ?_⟩
  cases other
  rfl

/-- What is directly inside a part, among the numbers around it. -/
theorem Step.Around.reports_eq {step : Step a b} {p : a.Part} {q : b.Part}
    {before after : List Reports} (h : step.Around p before after) (hq : step.get? p = some q) :
    a.reports p = .mk (a.emitted p) (before ++ b.reports q :: after) := by
  have hput := h.reports_put q
  rwa [Step.put_get? hq] at hput

theorem Step.numbers_subset {step : Step a b} {p : a.Part} {q : b.Part} (h : step.get? p = some q) :
    ∀ j ∈ (b.reports q).numbers, j ∈ (a.reports p).numbers := by
  intro j hj
  by_cases ha : a = .sequence
  · subst ha
    obtain ⟨hreports, -⟩ := reports_sequence h
    exact hreports ▸ hj
  · obtain ⟨before, after, haround⟩ := exists_around h ha
    rw [haround.reports_eq h, numbers, numbersAll_append]
    exact List.mem_cons_of_mem _ (List.mem_append_right _ (List.mem_append_left _ hj))

theorem Path.numbers_subset {path : Path a b} {p : a.Part} {q : b.Part} (h : path.get? p = some q) :
    ∀ j ∈ (b.reports q).numbers, j ∈ (a.reports p).numbers := by
  induction path with
  | here =>
    cases h
    exact fun _ hj => hj
  | step step rest ih =>
    obtain ⟨inner, hinner, hrest⟩ := Option.bind_eq_some_iff.mp h
    exact fun j hj => Step.numbers_subset hinner j (ih hrest j hj)

theorem Path.enclosing_subset {path : Path a b} {p : a.Part} {q : b.Part}
    (h : path.get? p = some q) : ∀ j ∈ b.emitted q :: path.enclosing p, j ∈ (a.reports p).numbers := by
  induction path with
  | @here a =>
    cases h
    simpa [enclosing] using a.emitted_mem p
  | @step a b c step rest ih =>
    obtain ⟨inner, hinner, hrest⟩ := Option.bind_eq_some_iff.mp h
    intro j hj
    simp only [enclosing, hinner, Option.map_some, Option.getD_some, ← List.cons_append,
      List.mem_append] at hj
    rcases hj with hj | hj
    · exact Step.numbers_subset hinner j (ih hrest j hj)
    · have hown : j = a.emitted p := by
        by_cases ha : a = .sequence
        · subst ha
          cases hj
        · rw [Site.own_of_ne ha] at hj
          exact List.mem_singleton.mp hj
      exact hown ▸ a.emitted_mem p

theorem Step.linked_get? {step : Step a b} {p : a.Part} {q : b.Part} (h : step.get? p = some q)
    (hp : (a.reports p).Linked f owner) :
    ∃ inner, (b.reports q).Linked f inner ∧ f.chain inner = a.own p ++ f.chain owner := by
  by_cases ha : a = .sequence
  · subst ha
    obtain ⟨hreports, -⟩ := reports_sequence h
    exact ⟨owner, hreports ▸ hp, rfl⟩
  · obtain ⟨before, after, haround⟩ := exists_around h ha
    rw [haround.reports_eq h] at hp
    cases hp with
    | mk hchain hbelow =>
      rw [Site.own_of_ne ha]
      exact ⟨a.emitted p, hbelow _ (by simp), hchain⟩

/-- From the notifier of a part the links lead through those around it to the owner. -/
theorem Path.chain_eq {path : Path a b} {p : a.Part} {q : b.Part} (h : path.get? p = some q)
    (hp : (a.reports p).Linked f owner) :
    f.chain (b.emitted q) = b.emitted q :: path.enclosing p ++ f.chain owner := by
  induction path generalizing owner with
  | @here a =>
    cases h
    obtain ⟨below, hreports⟩ := a.exists_reports p
    rw [hreports] at hp
    cases hp with
    | mk hchain _ => exact hchain
  | step step rest ih =>
    obtain ⟨inner, hinner, hrest⟩ := Option.bind_eq_some_iff.mp h
    obtain ⟨next, hlinked, hnext⟩ := Step.linked_get? hinner hp
    simp only [enclosing, hinner, Option.map_some, Option.getD_some]
    rw [ih hrest hlinked, hnext]
    simp

/-! ## Different parts, different notifiers -/

/-- Where no number occurs twice, what is inside a part and what is around that have none in
common. -/
theorem Step.Around.apart {step : Step a b} {p : a.Part} {q : b.Part} {before after : List Reports}
    (h : step.Around p before after) (hq : step.get? p = some q)
    (hp : (a.reports p).numbers.Nodup) :
    (b.reports q).numbers.Nodup ∧ a.emitted p ∉ (b.reports q).numbers ∧
      a.emitted p ∉ numbersAll (before ++ after) ∧
      ∀ j ∈ (b.reports q).numbers, j ∉ numbersAll (before ++ after) := by
  rw [h.reports_eq hq, numbers, numbersAll_append, numbersAll] at hp
  simp only [numbersAll_append]
  grind

/-- Steps from one part that differ lead to parts without a notifier in common. -/
theorem Step.disjoint {step : Step a b} {other : Step a b'} {p : a.Part} {q : b.Part}
    {q' : b'.Part} (hq : step.get? p = some q) (hq' : other.get? p = some q')
    (hp : (a.reports p).numbers.Nodup)
    (hne : (⟨b', other⟩ : Σ b, Step a b) ≠ ⟨b, step⟩) :
    ∀ j ∈ (b.reports q).numbers, j ∉ (b'.reports q').numbers := by
  intro j hj hj'
  by_cases ha : a = .sequence
  · subst ha
    obtain ⟨-, -, -, honly⟩ := reports_sequence hq
    exact hne (honly other)
  · obtain ⟨before, after, haround⟩ := exists_around hq ha
    obtain ⟨-, -, -, hacross⟩ := haround.apart hq hp
    exact hacross j hj (mem_numbersAll.mpr ⟨_, haround.others hne hq', hj'⟩)

/-- The steps of a path in order. -/
def Path.steps : {a b : Site} → Path a b → List (Σ a b, Step a b)
  | _, _, here => []
  | a, _, step (b := b) s rest => ⟨a, b, s⟩ :: rest.steps

theorem Path.emitted_mem {path : Path a b} {p : a.Part} {q : b.Part} (h : path.get? p = some q) :
    b.emitted q ∈ (a.reports p).numbers := enclosing_subset h _ List.mem_cons_self

/-- The notifier of a part inside another is not that part's own. -/
theorem Step.notMem_own {step : Step a b} {rest : Path b c} {p : a.Part} {inner : b.Part}
    {r : c.Part} (hinner : step.get? p = some inner) (hr : rest.get? inner = some r)
    (hp : (a.reports p).numbers.Nodup) : c.emitted r ∉ a.own p := by
  intro hmem
  by_cases ha : a = .sequence
  · subst ha
    cases hmem
  · obtain ⟨before, after, haround⟩ := exists_around hinner ha
    obtain ⟨-, hnot, -⟩ := haround.apart hinner hp
    rw [Site.own_of_ne ha, List.mem_singleton] at hmem
    exact hnot (hmem ▸ Path.emitted_mem hr)

theorem Step.nodup_get? {step : Step a b} {p : a.Part} {q : b.Part} (h : step.get? p = some q)
    (hp : (a.reports p).numbers.Nodup) : (b.reports q).numbers.Nodup := by
  by_cases ha : a = .sequence
  · subst ha
    obtain ⟨hreports, -⟩ := reports_sequence h
    rwa [hreports] at hp
  · obtain ⟨before, after, haround⟩ := exists_around h ha
    exact (haround.apart h hp).1

/-- The part at a place and those around it are the ones whose paths it goes on from. -/
theorem Path.mem_enclosing_iff {path : Path a b} {x : Path a c} {p : a.Part} {q : b.Part}
    {r : c.Part} (hq : path.get? p = some q) (hr : x.get? p = some r)
    (hp : (a.reports p).numbers.Nodup) (hb : b ≠ .sequence) :
    c.emitted r ∈ b.emitted q :: path.enclosing p ↔ x.steps <+: path.steps := by
  induction path generalizing c with
  | @here a =>
    cases hq
    cases x with
    | here =>
      cases hr
      simp [steps]
    | step step rest =>
      obtain ⟨inner, hinner, hrest⟩ := Option.bind_eq_some_iff.mp hr
      have hnot := Step.notMem_own hinner hrest hp
      rw [Site.own_of_ne hb] at hnot
      simpa [steps, enclosing] using hnot
  | @step a b' b step rest ih =>
    obtain ⟨inner, hinner, hrest⟩ := Option.bind_eq_some_iff.mp hq
    have hinside := Step.nodup_get? hinner hp
    simp only [enclosing, hinner, Option.map_some, Option.getD_some, ← List.cons_append,
      List.mem_append]
    cases x with
    | here =>
      obtain rfl := Option.some.inj hr
      refine iff_of_true ?_ List.nil_prefix
      by_cases ha : a = .sequence
      · subst ha
        obtain ⟨-, hown, -⟩ := Step.reports_sequence hinner
        have hinnermost := (ih (x := .here) hrest rfl hinside hb).mpr List.nil_prefix
        exact .inl (hown ▸ hinnermost)
      · exact .inr (Site.own_of_ne ha p ▸ List.mem_singleton_self _)
    | @step _ c' _ other rest' =>
      obtain ⟨inner', hinner', hrest'⟩ := Option.bind_eq_some_iff.mp hr
      rw [or_iff_left (Step.notMem_own hinner' hrest' hp)]
      by_cases hsame : (⟨c', other⟩ : Σ b, Step a b) = ⟨b', step⟩
      · cases hsame
        cases hinner.symm.trans hinner'
        rw [ih hrest hrest' hinside hb]
        simp [steps, List.cons_prefix_cons]
      · refine iff_of_false (fun hmem => ?_) fun hprefix => ?_
        · exact Step.disjoint hinner hinner' hp hsame _ (enclosing_subset hrest _ hmem)
            (emitted_mem hrest')
        · obtain ⟨hhead, -⟩ := List.cons_prefix_cons.mp hprefix
          exact hsame (eq_of_heq (Sigma.mk.inj hhead).2)

/-- The notifiers on the way up from a part are different ones. -/
theorem Path.nodup_enclosing {path : Path a b} {p : a.Part} {q : b.Part} (h : path.get? p = some q)
    (hb : b ≠ .sequence) (hp : (a.reports p).numbers.Nodup) :
    (b.emitted q :: path.enclosing p).Nodup := by
  induction path with
  | here => exact List.nodup_singleton _
  | @step a b' b step rest ih =>
    obtain ⟨inner, hinner, hrest⟩ := Option.bind_eq_some_iff.mp h
    have hinside := ih hrest hb (Step.nodup_get? hinner hp)
    simp only [enclosing, hinner, Option.map_some, Option.getD_some, ← List.cons_append]
    by_cases ha : a = .sequence
    · subst ha
      exact (List.append_nil _).symm ▸ hinside
    · obtain ⟨before, after, haround⟩ := Step.exists_around hinner ha
      obtain ⟨-, hown, -⟩ := haround.apart hinner hp
      rw [Site.own_of_ne ha]
      refine List.nodup_append.mpr ⟨hinside, List.nodup_singleton _, ?_⟩
      intro i hi j hj heq
      rw [List.mem_singleton] at hj
      exact hown (hj ▸ heq ▸ enclosing_subset hrest i hi)

/-- A notifier is on the way up from a part once if it is that of the part or of one around it. -/
theorem Path.count_enclosing {path : Path a b} {x : Path a c} {p : a.Part} {q : b.Part}
    {r : c.Part} (hq : path.get? p = some q) (hr : x.get? p = some r)
    (hp : (a.reports p).numbers.Nodup) (hb : b ≠ .sequence) :
    (b.emitted q :: path.enclosing p).count (c.emitted r) =
      (decide (x.steps <+: path.steps)).toNat := by
  have hmem := mem_enclosing_iff hq hr hp hb
  by_cases hx : x.steps <+: path.steps
  · rw [decide_eq_true hx,
      List.count_eq_one_of_mem (nodup_enclosing hq hb hp) (hmem.mpr hx)]
    rfl
  · rw [decide_eq_false hx, List.count_eq_zero.mpr fun hin => hx (hmem.mp hin)]
    rfl

end SceneScript
