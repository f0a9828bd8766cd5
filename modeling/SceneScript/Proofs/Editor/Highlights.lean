import SceneScript.Proofs.Cli.Rewriting
import SceneScript.Proofs.Editor.Failure
import SceneScript.Proofs.Editor.Outcomes

/-! What highlights tell of a release. A target is highlighted for a component if it is enabled and
of its category; it then takes the component, unless a name in it is no variable. -/

namespace SceneScript

section Verdict

variable {t : TargetInfo} {c : Component}

theorem TargetInfo.verdict_eq_dropped : t.verdict (.ok c) = .ok .dropped ↔
    (t.enabled = true ∧ c.category = t.category) ∧ ∀ name ∈ c.variables, name ∈ variableNames := by
  unfold verdict
  cases t.enabled with
  | false => simp
  | true =>
    by_cases hcategory : c.category = t.category
    · simp only [hcategory, if_true, true_and]
      cases hfind : c.variables.find? (· ∉ variableNames) with
      | none => simpa using hfind
      | some name =>
        have hunknown : name ∉ variableNames := by simpa using List.find?_some hfind
        have hname : name ∈ c.variables := List.mem_of_find?_eq_some hfind
        exact iff_of_false nofun fun h => hunknown (h name hname)
    · simp [hcategory]

theorem TargetInfo.verdict_eq_unknownVariable {name : String} :
    t.verdict (.ok c) = .error (.unknownVariable name) ↔
      (t.enabled = true ∧ c.category = t.category) ∧
        c.variables.find? (· ∉ variableNames) = some name := by
  unfold verdict
  cases t.enabled with
  | false => simp
  | true =>
    by_cases hcategory : c.category = t.category
    · simp only [hcategory, if_true, true_and]
      cases c.variables.find? (· ∉ variableNames) <;> simp
    · simp [hcategory]

end Verdict

namespace Document

variable {d : Document} {drag : Drag} {p : Payload} {c : Component} {i : Nat} {t : TargetInfo}

theorem targets_lit (d : Document) (category : Category) :
    (d.lit category).targets = d.targets.map fun t =>
      { t with highlighted := t.enabled && t.category == category } :=
  targets_highlight (· == category) d.root

theorem highlighted_lit (ht : (d.lit c.category).targets[i]? = some t) :
    t.highlighted = true ↔ t.enabled = true ∧ c.category = t.category := by
  rw [targets_lit, List.getElem?_map] at ht
  obtain ⟨t, -, rfl⟩ := Option.map_eq_some_iff.mp ht
  rw [Bool.and_eq_true, beq_iff_eq, eq_comm (a := t.category)]

/-- What the highlights for a payload tell of its release.
- Every payload that can be read has them, on the targets that are enabled and of its category.
- A release is dropped exactly on a highlighted target, with names of variables only.
- On a highlighted target it fails exactly at the first name that is no variable. -/
theorem highlights_predict (d : Document) (hp : drag.payload = some p) (hc : p.decode = .ok c) :
    ∃ lit n, d.highlightFor p = .ok (lit, n) ∧ ∀ i t, lit.targets[i]? = some t →
      (t.highlighted = true ↔ t.enabled = true ∧ c.category = t.category) ∧
      ((lit.dropAt drag i).2.2 = .ok .dropped ↔
        t.highlighted = true ∧ ∀ name ∈ c.variables, name ∈ variableNames) ∧
      ∀ name, (lit.dropAt drag i).2.2 = .error (.unknownVariable name) ↔
        t.highlighted = true ∧ c.variables.find? (· ∉ variableNames) = some name := by
  obtain ⟨n, hlit⟩ := highlightFor_eq (d := d) hc
  refine ⟨d.lit c.category, n, hlit, fun i t ht => ?_⟩
  have hhighlighted := highlighted_lit ht
  have hreply : ((d.lit c.category).dropAt drag i).2.2 = t.verdict (.ok c) := by
    rw [dropAt_listed hp ht, hc]
  rw [hreply, hhighlighted]
  exact ⟨.rfl, TargetInfo.verdict_eq_dropped, fun _ => TargetInfo.verdict_eq_unknownVariable⟩

end Document

/-- A drag of a statement that reads a variable. -/
def sampleItemDrag : Drag := ⟨some (.encode (.statement (.get "item"))), []⟩

/-- The commands before a scene are highlighted for such a statement and take it; the text of the
scene is not, and does not. -/
theorem sampleItemDrag_predicted :
    sampleItemDrag.payload = some (.encode (.statement (.get "item"))) ∧
    (Payload.encode (.statement (.get "item"))).decode = .ok (.statement (.get "item")) ∧
    ∃ lit n, sampleDocument.highlightFor (.encode (.statement (.get "item"))) = .ok (lit, n) ∧
      (lit.dropAt sampleItemDrag 0).2.2 = .ok .dropped ∧
      (lit.dropAt sampleItemDrag 1).2.2 ≠ .ok .dropped := by
  have hp : sampleItemDrag.payload = some (.encode (.statement (.get "item"))) := rfl
  have hc := Payload.decode_get "item"
  obtain ⟨lit, n, hlit, hpredict⟩ := sampleDocument.highlights_predict hp hc
  obtain ⟨_, hsame⟩ := Document.highlightFor_eq (d := sampleDocument) hc
  cases hlit.symm.trans hsame
  obtain ⟨-, hgap, -⟩ :=
    hpredict 0 ⟨0, .statement, Target.commands.label, false, true, true⟩ (by rfl)
  obtain ⟨-, htext, -⟩ :=
    hpredict 1 ⟨1, .expr .text, (Target.slot .text).label, false, true, false⟩ (by rfl)
  refine ⟨hp, hc, _, n, hlit, hgap.mpr ⟨rfl, by decide⟩, fun hdropped => ?_⟩
  obtain ⟨hhighlighted, -⟩ := htext.mp hdropped
  cases hhighlighted

/-- The commands before a scene are highlighted for a statement that they fail to take. -/
theorem sampleCounterDrag_misled :
    ∃ lit n t, sampleDocument.highlightFor (.encode (.statement (.get "counter"))) = .ok (lit, n) ∧
      lit.targets[0]? = some t ∧ t.highlighted = true ∧
      (lit.dropAt sampleCounterDrag 0).2.2 = .error (.unknownVariable "counter") := by
  have hc := Payload.decode_get "counter"
  obtain ⟨n, hlit⟩ := Document.highlightFor_eq (d := sampleDocument) hc
  have ht : (sampleDocument.lit (Component.statement (.get "counter")).category).targets[0]? =
      some ⟨0, .statement, Target.commands.label, false, true, true⟩ := by rfl
  refine ⟨_, n, _, hlit, ht, rfl, ?_⟩
  rw [Document.dropAt_listed rfl ht, hc]
  rfl

end SceneScript
