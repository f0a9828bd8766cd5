import SceneScript.Proofs.Editor.Editing
import SceneScript.Proofs.Editor.Listing

/-! What comes of a release. It is told by the entry of the listing under the number of the release
and by what the payload is read as: a target that is enabled and of the category of a component
takes it, and can fail at nothing but a name in it that is no variable. -/

namespace SceneScript

/-- What comes of a release over a target that is listed like this, with a payload that is read like
that. -/
def TargetInfo.verdict (t : TargetInfo) (carried : Except EditorError Component) :
    Except EditorError DragOutcome :=
  match t.enabled, carried with
  | false, _ => .ok (.cancelled .readOnly)
  | true, .error _ => .ok (.cancelled .rejected)
  | true, .ok c =>
    if c.category = t.category then
      match c.variables.find? (· ∉ variableNames) with
      | some name => .error (.unknownVariable name)
      | none => .ok .dropped
    else .ok (.cancelled .rejected)

/-! ## Targets -/

/-- A target decides as it is listed, under whatever number. -/
theorem Drag.resolve_verdict (p : Payload) (t : Target) (part : t.Part) (i : Nat) :
    (resolve p t part).map Prod.fst = (t.info i part).verdict p.decode := by
  unfold resolve TargetInfo.verdict
  simp only [Target.info]
  cases henabled : t.isEnabled part with
  | false => rfl
  | true =>
    simp only [Bool.not_true, Bool.false_eq_true, if_false]
    cases hdecode : p.decode with
    | error e =>
      have henter : t.dragEnter part p = false := by
        rw [Target.dragEnter, hdecode, Bool.and_false]
      rw [henter]
      rfl
    | ok c =>
      rw [Target.dragEnter_of_decode hdecode, henabled, Bool.true_and]
      cases haccepts : t.accepts c with
      | false =>
        have hcategory : c.category ≠ t.category := ne_of_beq_false haccepts
        simp only [Bool.not_false, if_true, hcategory, if_false]
        rfl
      | true =>
        have hcategory : c.category = t.category := eq_of_beq haccepts
        have hbuilds := Target.buildsWith_accept haccepts part
        unfold BuildsWith at hbuilds
        simp only [Bool.not_true, Bool.false_eq_true, if_false, hcategory, if_true]
        cases hfind : c.variables.find? (· ∉ variableNames) with
        | none =>
          rw [hfind] at hbuilds
          obtain ⟨e, he⟩ := hbuilds
          rw [bind_ok, he]
          rfl
        | some name =>
          rw [hfind] at hbuilds
          dsimp only at hbuilds
          rw [bind_ok, hbuilds]
          rfl

/-- A verdict is never that a component is of the wrong kind, or of one that cannot be shown. -/
theorem TargetInfo.verdict_error {t : TargetInfo} {carried : Except EditorError Component}
    {f : EditorError} (h : t.verdict carried = .error f) : ∃ name, f = .unknownVariable name := by
  unfold verdict at h
  split at h
  · cases h
  · cases h
  · split at h
    · split at h
      · cases h
        exact ⟨_, rfl⟩
      · cases h
    · cases h

/-! ## Releases -/

/-- How a gesture ends: a target that fails has rejected what was released. -/
def DragOutcome.ofVerdict (verdict : Except EditorError DragOutcome) : DragOutcome :=
  verdict.toOption.getD (.cancelled .rejected)

theorem Drag.dropOn_verdict {drag : Drag} {p : Payload} (hp : drag.payload = some p) (t : Target)
    (part : t.Part) (i : Nat) :
    (drag.dropOn t part).1 = drag.finish (.ofVerdict ((t.info i part).verdict p.decode)) ∧
      (drag.dropOn t part).2.map Prod.fst = (t.info i part).verdict p.decode := by
  unfold dropOn
  rw [hp, ← resolve_verdict p t part i]
  dsimp only
  cases resolve p t part <;> exact ⟨rfl, rfl⟩

section Release

variable {d : Document} {drag : Drag} {p : Payload} {i : Nat}

/-- Without a target of that number the drag goes on. -/
theorem Document.dropAt_missing (hp : drag.payload = some p) (hi : d.targets[i]? = none) :
    (d.dropAt drag i).2 = (drag, .error (.noSuchTarget i)) := by
  have hl : Site.act.target? d.root i = none :=
    Option.map_eq_none_iff.mp ((Site.act.targets_getElem? d.root i).symm.trans hi)
  simp only [dropAt, Drag.dropAt, Drag.isDragging, hp, hl, Option.isSome_some, Bool.not_true,
    Bool.false_eq_true, if_false]

/-- The target that decides is the one that is listed under the number. -/
theorem Document.dropAt_listed (hp : drag.payload = some p) {t : TargetInfo}
    (ht : d.targets[i]? = some t) : (d.dropAt drag i).2 =
      (drag.finish (.ofVerdict (t.verdict p.decode)), t.verdict p.decode) := by
  obtain ⟨l, hl, rfl⟩ := Option.map_eq_some_iff.mp
    ((Site.act.targets_getElem? d.root i).symm.trans ht)
  obtain ⟨hdrag, hreply⟩ := Drag.dropOn_verdict hp l.place.target l.part i
  rw [← hdrag, ← hreply]
  simp only [dropAt, Drag.dropAt, Drag.isDragging, hp, hl, Option.isSome_some, Bool.not_true,
    Bool.false_eq_true, if_false, Drag.dropAtPlace]
  rcases drag.dropOn l.place.target l.part with ⟨drag', f | ⟨outcome, e⟩⟩ <;> rfl

/-- What comes of releasing a drag by number.
- Exactly if no target has that number, this is the reply, and the drag goes on as it was.
- Otherwise the entry of the listing under that number tells the reply, and the drag ends with it.
- No reply is that a component is of the wrong kind, or of one that cannot be shown. -/
theorem Document.dropAt_exact (d : Document) (hp : drag.payload = some p) (i : Nat) :
    ((d.dropAt drag i).2.2 = .error (.noSuchTarget i) ↔ d.targets.length ≤ i) ∧
    ((d.dropAt drag i).2.1.isDragging = true ↔ d.targets.length ≤ i) ∧
    (d.targets.length ≤ i → (d.dropAt drag i).2.1 = drag) ∧
    (∀ t, d.targets[i]? = some t → t.index = i ∧ (d.dropAt drag i).2 =
      (drag.finish (.ofVerdict (t.verdict p.decode)), t.verdict p.decode)) ∧
    (∀ expected found, (d.dropAt drag i).2.2 ≠ .error (.incompatible expected found)) ∧
    ∀ kind, (d.dropAt drag i).2.2 ≠ .error (.unsupported kind) := by
  cases ht : d.targets[i]? with
  | none =>
    have hlength : d.targets.length ≤ i := List.getElem?_eq_none_iff.mp ht
    have hdragging : drag.isDragging = true := by rw [Drag.isDragging, hp, Option.isSome_some]
    rw [dropAt_missing hp ht]
    exact ⟨iff_of_true rfl hlength, iff_of_true hdragging hlength, fun _ => rfl, nofun, nofun,
      nofun⟩
  | some t =>
    have hlength : ¬ d.targets.length ≤ i :=
      Nat.not_le_of_lt (List.getElem?_eq_some_iff.mp ht).1
    have hindex : t.index = i := by
      obtain ⟨l, -, rfl⟩ := Option.map_eq_some_iff.mp
        ((Site.act.targets_getElem? d.root i).symm.trans ht)
      rfl
    have hfailure {f : EditorError} (h : t.verdict p.decode = .error f) :
        ∃ name, f = .unknownVariable name := TargetInfo.verdict_error h
    rw [dropAt_listed hp ht]
    refine ⟨iff_of_false (fun h => ?_) hlength, iff_of_false nofun hlength,
      fun h => absurd h hlength, ?_, fun _ _ h => ?_, fun _ h => ?_⟩
    · obtain ⟨name, hname⟩ := hfailure h
      cases hname
    · rintro _ ⟨⟩
      exact ⟨hindex, rfl⟩
    · obtain ⟨name, hname⟩ := hfailure h
      cases hname
    · obtain ⟨name, hname⟩ := hfailure h
      cases hname

end Release

/-- A statement that reads a variable is small enough to be read again. -/
theorem Payload.decode_get (name : String) :
    (encode (.statement (.get name))).decode = .ok (.statement (.get name)) :=
  eq_ok_of_toOption ((Payload.decode_encode _).trans (Component.loaded?_writable
    (by simp [Component.literals, Statement.literals])
    ⟨by simp [Component.literals, Statement.literals], Nat.le_of_ble_eq_true rfl⟩))

/-- A drag of a statement that names something that is no variable. -/
def sampleCounterDrag : Drag := ⟨some (.encode (.statement (.get "counter"))), []⟩

/-- The commands before a scene would take a statement, but not this one, and the drag ends. -/
theorem sampleCounterDrag_dropAt :
    sampleCounterDrag.payload = some (.encode (.statement (.get "counter"))) ∧
      (sampleDocument.dropAt sampleCounterDrag 0).2 =
        (sampleCounterDrag.finish (.cancelled .rejected),
          .error (.unknownVariable "counter")) := by
  have hp : sampleCounterDrag.payload = some (.encode (.statement (.get "counter"))) := rfl
  refine ⟨hp, ?_⟩
  obtain ⟨-, -, -, hlisted, -⟩ := sampleDocument.dropAt_exact hp 0
  obtain ⟨-, hreply⟩ := hlisted ⟨0, .statement, Target.commands.label, false, true, false⟩ (by rfl)
  rw [hreply, Payload.decode_get]
  rfl

end SceneScript
