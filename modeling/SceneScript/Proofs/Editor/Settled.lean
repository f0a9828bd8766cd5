import SceneScript.Proofs.Editor.Building
import SceneScript.Proofs.Editor.Operations
import SceneScript.Proofs.Editor.Widgets
import SceneScript.Proofs.Number.PlainText

/-! What holds of every tree whose flag is set only as a whole. All its widgets have that flag, also
those that came later, and the text of each number is one of its value, however it was spelled. Both
are kept by every operation; what is built anew has them from the start. -/

namespace SceneScript

/-- The text can be read as no other number. -/
def NumberField.Faithful (f : NumberField) : Prop := ∀ v, parseNumber f.text = .ok v → v = f.value

structure Widget.Settled (r : Bool) (w : Widget) : Prop where
  readOnly : w.readOnly = r
  faithful : ∀ field, w = .number field → field.Faithful

def Site.Settled (r : Bool) (s : Site) (p : s.Part) : Prop := ∀ w ∈ s.widgets p, w.Settled r

variable {r : Bool}

/-! ## Widgets -/

namespace Widget

theorem settled_text {field : TextField} : (text field).Settled r ↔ field.readOnly = r :=
  ⟨fun h => h.readOnly, fun h => ⟨h, nofun⟩⟩

theorem settled_number {field : NumberField} :
    (number field).Settled r ↔ field.readOnly = r ∧ field.Faithful :=
  ⟨fun h => ⟨h.readOnly, h.faithful field rfl⟩, fun h => ⟨h.1, by rintro _ ⟨⟩; exact h.2⟩⟩

theorem settled_operator {choice : OperatorChoice} :
    (operator choice).Settled r ↔ choice.readOnly = r :=
  ⟨fun h => h.readOnly, fun h => ⟨h, nofun⟩⟩

theorem settled_name {choice : VariableChoice} : (name choice).Settled r ↔ choice.readOnly = r :=
  ⟨fun h => h.readOnly, fun h => ⟨h, nofun⟩⟩

theorem settled_frame {t : Target} {full : Bool} {frame : Frame} :
    (frame.widget t full).Settled r ↔ frame.readOnly = r :=
  ⟨fun h => h.readOnly, fun h => ⟨h, nofun⟩⟩

theorem Settled.relabel {w : Widget} (h : w.Settled r) (m : Relabeling) :
    (w.relabel m).Settled (m.readOnly r) := by
  refine ⟨(w.readOnly_relabel m).trans (congrArg m.readOnly h.readOnly), ?_⟩
  cases w with
  | number field =>
    rintro _ ⟨⟩
    exact h.faithful field rfl
  | _ => exact nofun

end Widget

/-! ## Parts -/

namespace Site.Settled

variable {s : Site} {p : s.Part}

theorem relabel (h : s.Settled r p) (m : Relabeling) :
    s.Settled (m.readOnly r) (s.relabel m p) := by
  intro w hw
  rw [Site.widgets_relabel] at hw
  obtain ⟨v, hv, rfl⟩ := List.mem_map.mp hw
  exact (h v hv).relabel m

theorem setReadOnly (h : s.Settled r p) (r' : Bool) : s.Settled r' (s.setReadOnly r' p) :=
  s.setReadOnly_eq r' p ▸ h.relabel _

theorem highlight (h : s.Settled r p) (wanted : Category → Bool) :
    s.Settled r (s.highlight wanted p) :=
  s.highlight_eq wanted p ▸ h.relabel _

theorem announce (h : s.Settled r p) (o : Option Origin) : s.Settled r (s.announce o p) := by
  intro w hw
  rw [Site.widgets_announce] at hw
  exact h w hw

theorem get? {b : Site} {path : Path s b} {q : b.Part} (h : s.Settled r p)
    (hq : path.get? p = some q) : b.Settled r q :=
  fun w hw => h w (Path.widgets_get? hq hw)

theorem put {b : Site} {path : Path s b} {e : Edited b.Part} (h : s.Settled r p)
    (he : b.Settled r e.part) : s.Settled r (path.put e p) := by
  intro w hw
  rcases Path.mem_widgets_put hw with hw | hw
  · exact he w hw
  · exact h w hw

end Site.Settled

/-! ## New trees -/

theorem Slot.settled_ofExpr {f : Family} (e : Expr f) :
    Site.Settled false (.slot f) (Slot.ofExpr e) := by
  have hframe : ∀ {f : Family} {full : Bool}, (Frame.new.widget (.slot f) full).Settled false :=
    Widget.settled_frame.mpr rfl
  unfold Site.Settled
  induction e with
  | gap => exact List.forall_mem_singleton.mpr hframe
  | number x =>
    have hfield : (Widget.number (.new x)).Settled false :=
      Widget.settled_number.mpr ⟨rfl, fun _ => eq_of_parseNumber_plainText⟩
    exact List.forall_mem_cons.mpr ⟨hframe, List.forall_mem_singleton.mpr hfield⟩
  | text s | url s =>
    have hfield : (Widget.text (.new s)).Settled false := Widget.settled_text.mpr rfl
    exact List.forall_mem_cons.mpr ⟨hframe, List.forall_mem_singleton.mpr hfield⟩
  | operation o a b iha ihb =>
    have hchoice : (Widget.operator (.showing o)).Settled false :=
      Widget.settled_operator.mpr (by cases o <;> rfl)
    exact List.forall_mem_cons.mpr ⟨hframe, List.forall_mem_cons.mpr
      ⟨hchoice, List.forall_mem_append.mpr ⟨iha, ihb⟩⟩⟩
  | titleOf v ih | randomFrom v ih | relatedTo v ih => exact List.forall_mem_cons.mpr ⟨hframe, ih⟩

theorem StatementNode.Built.settled {s : Statement} {n : StatementNode} (h : n.Built s) :
    Site.Settled false .statement n := by
  cases h with
  | get hr => exact List.forall_mem_singleton.mpr (Widget.settled_name.mpr hr)
  | set hr value =>
    exact List.forall_mem_cons.mpr ⟨Widget.settled_name.mpr hr, Slot.settled_ofExpr value⟩

theorem ListEditor.settled_iff {α : Type} {t : Target} {widgets : α → List Widget}
    {l : ListEditor α} : (∀ w ∈ l.widgets t widgets, w.Settled r) ↔
      (∀ item ∈ l.items, ∀ w ∈ widgets item, w.Settled r) ∧ l.gap.readOnly = r := by
  unfold ListEditor.widgets
  rw [List.forall_mem_append, List.forall_mem_singleton, Widget.settled_frame]
  exact and_congr_left' ⟨fun h item hitem w hw => h w (List.mem_flatMap.mpr ⟨item, hitem, hw⟩),
    fun h w hw => by
      obtain ⟨item, hitem, hw⟩ := List.mem_flatMap.mp hw
      exact h item hitem w hw⟩

theorem SequenceNode.Built.settled {s : CommandSequence} {n : SequenceNode} (h : n.Built s) :
    Site.Settled false .sequence n := by
  cases h with
  | mk hitems =>
    refine ListEditor.settled_iff.mpr ⟨fun n hn => ?_, rfl⟩
    obtain ⟨_, hbuilt⟩ := built_of_mem hitems n hn
    exact hbuilt.settled

theorem CommentBox.settled_new (title comment : String) :
    ∀ w ∈ (CommentBox.new title comment).widgets, w.Settled false :=
  List.forall_mem_cons.mpr ⟨Widget.settled_text.mpr rfl,
    List.forall_mem_singleton.mpr (Widget.settled_text.mpr rfl)⟩

theorem SceneNode.Built.settled {s : Scene} {n : SceneNode} (h : n.Built s) :
    Site.Settled false .scene n := by
  unfold Site.Settled
  cases h with
  | text hpre hpost =>
    simp only [Site.widgets, SceneNode.widgets, List.forall_mem_append]
    exact ⟨⟨⟨⟨CommentBox.settled_new _ _, hpre.settled⟩, Slot.settled_ofExpr _⟩,
      Slot.settled_ofExpr _⟩, hpost.settled⟩
  | video hpre hpost =>
    simp only [Site.widgets, SceneNode.widgets, List.forall_mem_append]
    exact ⟨⟨⟨⟨⟨CommentBox.settled_new _ _, hpre.settled⟩, Slot.settled_ofExpr _⟩,
      Slot.settled_ofExpr _⟩, Slot.settled_ofExpr _⟩, hpost.settled⟩

theorem ActNode.Built.settled {a : Act} {n : ActNode} (h : n.Built a) :
    Site.Settled false .act n := by
  cases h with
  | mk hitems =>
    refine ListEditor.settled_iff.mpr ⟨fun n hn => ?_, rfl⟩
    obtain ⟨_, hbuilt⟩ := built_of_mem hitems n hn
    exact hbuilt.settled

theorem Document.settled_ofAct {a : Act} {d : Document} (h : Document.ofAct a = .ok d) :
    Site.Settled false .act d.root := by
  obtain ⟨root, hroot, h⟩ := bind_eq_ok h
  cases h
  exact (ActNode.built_of_build hroot).settled

end SceneScript
