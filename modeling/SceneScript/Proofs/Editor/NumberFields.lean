import SceneScript.Proofs.Editor.Actions
import SceneScript.Proofs.Editor.Editing
import SceneScript.Proofs.Editor.InPlace

/-! What a number field takes. A field that may be edited takes exactly the texts that are typed for
a finite number, shows them as they were given and holds that number; whatever else is entered is
refused with the text as it was given, and nothing is left of it. The text and the number are kept
apart and are replaced together or not at all, so they agree after every sequence of calls. -/

namespace SceneScript

namespace NumberField

/-- What is called on a field. -/
inductive Call
  | setText (text : String)
  | setReadOnly (readOnly : Bool)

/-- The field after a call, whether it was refused or not. -/
def call (f : NumberField) : Call → NumberField
  | .setText text => (setTextInPlace text f).state
  | .setReadOnly readOnly => f.setReadOnly readOnly

def run (f : NumberField) (calls : List Call) : NumberField := calls.foldl call f

variable {f : NumberField} {text : String} {y : Binary64}

/-! ## One call -/

/-- In place it comes to what the edit comes to. -/
theorem setTextInPlace_of {r : Except EditorError (Edited NumberField)} (h : f.setText text = r) :
    setTextInPlace text f = .of f (r.map fun e => ((), e)) :=
  h ▸ setText_performs text f

theorem setTextInPlace_refused (hr : f.readOnly = false) (h : ¬∃ y, NumberText text y) :
    setTextInPlace text f = ⟨.error (.invalidNumber text), f, []⟩ := by
  have hrefused : f.setText text = .error (.invalidNumber text) := by
    unfold setText
    rw [hr, parseNumber_eq_error h]
    rfl
  exact setTextInPlace_of hrefused

/-- The text that is shown already stands for the number that is held already. -/
theorem setTextInPlace_taken (hr : f.readOnly = false) (hf : f.Faithful) (h : NumberText text y) :
    setTextInPlace text f =
      ⟨.ok (), { f with text, value := y }, if text = f.text then [] else [.control]⟩ := by
  have hread := parseNumber_eq_ok_iff.mpr h
  by_cases htext : text = f.text
  · subst htext
    obtain rfl := hf y hread
    have hsame : f.setText f.text = .ok ⟨f, none⟩ := by simp [setText, hr, hread, bind_ok]
    rw [if_pos rfl]
    exact setTextInPlace_of hsame
  · have hset : f.setText text = .ok ⟨{ f with text, value := y }, some .control⟩ := by
      simp [setText, hr, hread, bind_ok, htext]
    rw [if_neg htext]
    exact setTextInPlace_of hset

/-! ## Sequences of calls -/

theorem part_setText {e : Edited NumberField} (h : f.setText text = .ok e) :
    e.part = f ∨ NumberText e.part.text e.part.value := by
  obtain ⟨value, hread, ⟨-, rfl⟩ | ⟨-, rfl⟩⟩ := setText_cases h
  · exact .inl rfl
  · exact .inr (parseNumber_eq_ok_iff.mp hread)

/-- After a call the text and the number are those from before, or a text for a number and that
number. -/
theorem call_cases (f : NumberField) (c : Call) :
    ((f.call c).text = f.text ∧ (f.call c).value = f.value) ∨
      NumberText (f.call c).text (f.call c).value := by
  cases c with
  | setReadOnly readOnly => exact .inl ⟨rfl, rfl⟩
  | setText text =>
    cases hset : f.setText text with
    | error e =>
      have hleft : f.call (.setText text) = f := congrArg Left.state (setTextInPlace_of hset)
      rw [hleft]
      exact .inl ⟨rfl, rfl⟩
    | ok e =>
      have hleft : f.call (.setText text) = e.part := congrArg Left.state (setTextInPlace_of hset)
      rw [hleft]
      rcases part_setText hset with hsame | hnumber
      · rw [hsame]
        exact .inl ⟨rfl, rfl⟩
      · exact .inr hnumber

/-- What is true of every text for a number stays true of the text and the number of a field. -/
theorem run_keeps {P : String → Binary64 → Prop} (hP : ∀ text x, NumberText text x → P text x)
    (hf : P f.text f.value) (calls : List Call) : P (f.run calls).text (f.run calls).value := by
  induction calls generalizing f with
  | nil => exact hf
  | cons c calls ih =>
    refine ih ?_
    rcases f.call_cases c with ⟨htext, hvalue⟩ | hnumber
    · rw [htext, hvalue]
      exact hf
    · exact hP _ _ hnumber

theorem Faithful.run (hf : f.Faithful) (calls : List Call) : (f.run calls).Faithful := by
  refine run_keeps (P := fun text x => ∀ v, parseNumber text = .ok v → v = x) ?_ hf calls
  intro text x hnumber v hv
  rw [parseNumber_eq_ok_iff.mpr hnumber] at hv
  exact (Except.ok.inj hv).symm

/-- A field takes the texts for finite numbers and no others, whichever calls it has seen and
whatever number it began with. If that was finite, the field always shows a text for the finite
number it holds, and takes that text again in silence. -/
theorem texts_checked (x : Binary64) (calls : List Call) :
    let f := (new x).run calls
    (f.readOnly = false → ∀ text,
      (∀ y, NumberText text y →
        setTextInPlace text f =
          ⟨.ok (), { f with text, value := y }, if text = f.text then [] else [.control]⟩ ∧
        Binary64.ofChars? (Text.trim text.toList) = some y) ∧
      ((¬∃ y, NumberText text y) →
        setTextInPlace text f = ⟨.error (.invalidNumber text), f, []⟩)) ∧
    (x.isFinite = true →
      f.value.isFinite = true ∧ NumberText f.text f.value ∧
      Binary64.ofChars? (Text.trim f.text.toList) = some f.value ∧
      (f.readOnly = false → setTextInPlace f.text f = ⟨.ok (), f, []⟩)) := by
  intro f
  have hnew : (new x).Faithful := fun _ => eq_of_parseNumber_plainText
  have hf : f.Faithful := hnew.run calls
  refine ⟨fun hr text => ⟨fun y hy => ⟨setTextInPlace_taken hr hf hy, hy.ofChars?⟩,
    setTextInPlace_refused hr⟩, fun hx => ?_⟩
  have hnumber : NumberText f.text f.value :=
    run_keeps (fun _ _ h => h) (numberText_plainText hx) calls
  refine ⟨hnumber.finite, hnumber, hnumber.ofChars?, fun hr => ?_⟩
  have htaken := setTextInPlace_taken hr hf hnumber
  rwa [if_pos rfl] at htaken

end NumberField

end SceneScript
