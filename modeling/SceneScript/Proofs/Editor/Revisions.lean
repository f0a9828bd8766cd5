import SceneScript.Proofs.Editor.Actions
import SceneScript.Proofs.Editor.Failure

/-! The count of changes of a document. What was changed by an operation can be told from its reply
and from the controls before and after it. The count goes up by one for each such change, wherever
in the tree it is made and however, and for nothing else; the document is unsaved from then on, and
each listener hears of it once. -/

namespace SceneScript

variable {ε α : Type} {a b s : Site}

/-! ## Edits and their announcements -/

/-- The change that an action makes, if it makes one. -/
def Action.origin : Action → Origin
  | fill _ | fillComponent _ => .slotFilled
  | clear => .slotEmptied
  | append _ | appendComponent _ => .listAppended
  | setText _ | setOperator _ | selectVariable _ | setTitle _ | setComment _ => .control

def Target.origin : Target → Origin
  | slot _ => .slotFilled
  | commands | scenes => .listAppended

/-- An edit of a control is announced if the control holds something else afterwards; otherwise the
control is as it was. -/
def Edited.Tells (old : α) (e : Edited α) : Prop :=
  e = ⟨old, none⟩ ∨ e.origin = some .control ∧ e.part ≠ old

theorem TextField.setText_tells {f : TextField} {text : String} {e : Edited TextField}
    (h : f.setText text = .ok e) : e.Tells f := by
  obtain ⟨-, rfl⟩ | ⟨hne, rfl⟩ := setText_cases h
  · exact .inl rfl
  · exact .inr ⟨rfl, fun heq => hne (congrArg TextField.text heq)⟩

theorem NumberField.setText_tells {f : NumberField} {text : String} {e : Edited NumberField}
    (h : f.setText text = .ok e) : e.Tells f := by
  obtain ⟨_, -, ⟨-, rfl⟩ | ⟨hne, rfl⟩⟩ := setText_cases h
  · exact .inl rfl
  · exact .inr ⟨rfl, fun heq => hne (congrArg NumberField.text heq)⟩

theorem Choice.select_tells [BEq α] {options : List α} {c : Choice options} {display : α → String}
    {x : α} {e : Edited (Choice options)} (h : c.select display x = .ok e) : e.Tells c := by
  obtain ⟨_, -, ⟨-, rfl⟩ | ⟨hne, rfl⟩⟩ := select_cases h
  · exact .inl rfl
  · exact .inr ⟨rfl, fun heq => hne (congrArg Choice.index heq)⟩

theorem VariableChoice.selectName_tells {v : VariableChoice} {name : String}
    {e : Edited VariableChoice} (h : v.selectName name = .ok e) : e.Tells v :=
  Choice.select_tells (select_of_selectName h)

theorem OperatorChoice.selectSymbol_tells {o : OperatorChoice} {symbol : String}
    {e : Edited OperatorChoice} (h : o.selectSymbol symbol = .ok e) : e.Tells o := by
  obtain ⟨_, -, hselect⟩ := select_of_selectSymbol h
  exact Choice.select_tells hselect

/-- An edit that succeeds is announced as the change its action makes, unless it is made in a
control that holds the same already. -/
def Action.Tells (x : Action) (s : Site) (p : s.Part) (e : Edited s.Part) : Prop :=
  (x.origin = .control ∧ e = ⟨p, none⟩) ∨
    (e.origin = some x.origin ∧ (x.origin = .control → s.widgets e.part ≠ s.widgets p))

/-- The part around a control tells what the control tells, if it shows what the control holds. -/
theorem Edited.Tells.into {old : α} {e : Edited α} (h : e.Tells old) (x : Action)
    (hx : x.origin = .control) (make : α → s.Part)
    (hshows : ∀ new, s.widgets (make new) = s.widgets (make old) → new = old) :
    x.Tells s (make old) (e.into make fun o => s.announce o) := by
  obtain rfl | ⟨horigin, hne⟩ := h
  · exact .inl ⟨hx, congrArg (Edited.mk · none) (s.announce_none (make old))⟩
  · refine .inr ⟨horigin.trans (congrArg some hx).symm, fun _ hsame => hne (hshows _ ?_)⟩
    unfold Edited.into at hsame
    rwa [s.widgets_announce] at hsame

/-- A scene shows what its comment box holds. -/
theorem SceneNode.comment_of_widgets {n : SceneNode} {new : CommentBox}
    (h : (n.withFrame { n.frame with comment := new }).widgets = n.widgets) :
    new = n.frame.comment := by
  have hboxes : ∀ {box box' : CommentBox} {rest rest' : List Widget},
      box.widgets ++ rest = box'.widgets ++ rest' → box = box' := by
    intro box box' rest rest' hsame
    obtain ⟨htitle, hsame⟩ := List.cons.inj hsame
    obtain ⟨hcomment, -⟩ := List.cons.inj hsame
    cases box
    cases box'
    cases htitle
    cases hcomment
    rfl
  cases n with
  | text f t | video f source offset =>
    simp only [withFrame, frame, widgets, List.append_assoc] at h
    exact hboxes h

theorem SceneNode.withFrame_comment (n : SceneNode) :
    n.withFrame { n.frame with comment := n.frame.comment } = n := by cases n <;> rfl

/-- The scene tells what its comment box tells. -/
theorem SceneNode.tells_comment {n : SceneNode} {e : Edited CommentBox}
    (h : e.Tells n.frame.comment) (x : Action) (hx : x.origin = .control) :
    x.Tells .scene n (e.into (fun comment => n.withFrame { n.frame with comment })
      fun o => Site.announce o .scene) := by
  have htells := h.into (s := .scene) x hx
    (fun comment => n.withFrame { n.frame with comment }) fun new hsame => by
      rw [n.withFrame_comment] at hsame
      exact SceneNode.comment_of_widgets hsame
  rw [n.withFrame_comment] at htells
  exact htells

theorem CommentBox.setTitle_tells {box : CommentBox} {text : String} {e : Edited CommentBox}
    (h : box.setTitle text = .ok e) : e.Tells box := by
  obtain ⟨e', hset, h⟩ := bind_eq_ok h
  cases h
  obtain rfl | ⟨horigin, hne⟩ := TextField.setText_tells hset
  · exact .inl rfl
  · exact .inr ⟨horigin, fun hsame => hne (congrArg CommentBox.title hsame)⟩

theorem CommentBox.setComment_tells {box : CommentBox} {text : String} {e : Edited CommentBox}
    (h : box.setComment text = .ok e) : e.Tells box := by
  obtain ⟨e', hset, h⟩ := bind_eq_ok h
  cases h
  obtain rfl | ⟨horigin, hne⟩ := TextField.setText_tells hset
  · exact .inl rfl
  · exact .inr ⟨horigin, fun hsame => hne (congrArg CommentBox.comment hsame)⟩

theorem Slot.origin_fill {f : Family} {slot : Slot f} {new : Expr f} {e : Edited (Slot f)}
    (h : slot.fill new = .ok e) : e.origin = some .slotFilled := by
  obtain ⟨filled, -, h⟩ := bind_eq_ok h
  cases h
  rfl

theorem ListEditor.origin_append [Entry α] {l : ListEditor α} {m : Entry.Model α}
    {e : Edited (ListEditor α)} (h : l.append m = .ok e) : e.origin = some .listAppended := by
  obtain ⟨entry, -, h⟩ := bind_eq_ok h
  cases h
  rfl

/-- Slots are filled and emptied, and lists grow, with an announcement each time. -/
theorem Action.tells_structural {x : Action} {p : s.Part} {e : Edited s.Part}
    (hx : x.origin ≠ .control) (he : e.origin = some x.origin) : x.Tells s p e :=
  .inr ⟨he, fun hcontrol => absurd hcontrol hx⟩

theorem Action.Succeeds.tells {x : Action} {p : s.Part} {e : Edited s.Part}
    (h : x.Succeeds s p e) : x.Tells s p e := by
  cases h with
  | @setNumber text field n e h =>
    exact (NumberField.setText_tells h).into (s := .node .number) _ rfl (.number · n)
      fun new hsame => Widget.number.inj (List.cons.inj hsame).1
  | @setText text field n e h =>
    exact (TextField.setText_tells h).into (s := .node .text) _ rfl (.text · n)
      fun new hsame => Widget.text.inj (List.cons.inj hsame).1
  | @setUrl text field n e h =>
    exact (TextField.setText_tells h).into (s := .node .video) _ rfl (.url · n)
      fun new hsame => Widget.text.inj (List.cons.inj hsame).1
  | @setOperator symbol o x y n e h =>
    exact (OperatorChoice.selectSymbol_tells h).into (s := .node .number) _ rfl
      (.operation · x y n) fun new hsame => Widget.operator.inj (List.cons.inj hsame).1
  | @selectGot name v n e h =>
    exact (VariableChoice.selectName_tells h).into (s := .statement) _ rfl (.get · n)
      fun new hsame => Widget.name.inj (List.cons.inj hsame).1
  | @selectSet name v value n e h =>
    exact (VariableChoice.selectName_tells h).into (s := .statement) _ rfl (.set · value n)
      fun new hsame => Widget.name.inj (List.cons.inj hsame).1
  | setTitle h => exact SceneNode.tells_comment (CommentBox.setTitle_tells h) _ rfl
  | setComment h => exact SceneNode.tells_comment (CommentBox.setComment_tells h) _ rfl
  | fill h | fillComponent h => exact tells_structural nofun (Slot.origin_fill h)
  | clear => exact tells_structural nofun rfl
  | appendStatement h | appendScene h | appendStatementComponent h | appendSceneComponent h
  | addCommand h | addScene h =>
    exact tells_structural nofun (ListEditor.origin_append h)

/-- Whatever action succeeds anywhere, it is announced as what it is. -/
theorem Action.on_tells {x : Action} {p : s.Part} {e : Edited s.Part} (h : x.on s p = .ok e) :
    x.Tells s p e := (succeeds h).tells

theorem Target.origin_accept {t : Target} {part : t.Part} {c : Component} {e : Edited t.Part}
    (h : t.accept part c = .ok e) : e.origin = some t.origin := by
  obtain ⟨hcontrol, -⟩ | ⟨horigin, -⟩ := (accept_succeeds h).tells
  · cases t <;> cases hcontrol
  · cases t <;> exact horigin

/-! ## Operations -/

/-- What the controls and targets of a part hold, if there is such a part. -/
def Document.stored (d : Document) (path : Path .act b) : Option (List Widget) :=
  (path.get? d.root).map b.widgets

/-- The change an operation made, told by how it was answered and by what is stored before and after
it: something was filled, emptied or appended, by a drop or directly, or a control was edited that
holds something else now. -/
def Operation.change? (op : Operation) (d : Document) (after : Document.After) : Option Origin :=
  match op, after.2 with
  | dropAt _ i, .ok (.released _ (.ok .dropped)) =>
    (Site.act.target? d.root i).map (·.place.target.origin)
  | dropOn _ place, .ok (.released _ (.ok .dropped)) => some place.target.origin
  | accept place _, .ok _ => some place.target.origin
  | edit path x, .ok _ =>
    if x.origin = .control ∧ after.1.stored path = d.stored path then none else some x.origin
  | _, _ => none

/-- What is known of a document's changes without looking at its tree. -/
structure Revision where
  version : Nat
  dirty : Bool
  heard : List (List Origin)

def Document.revision (d : Document) : Revision := ⟨d.version, d.dirty, d.heard⟩

def Revision.change (r : Revision) (o : Origin) : Revision :=
  ⟨r.version + 1, true, r.heard.map (· ++ [o])⟩

/-- The second document comes from the first by one change, or by none. -/
structure Document.Counts (d : Document) (o : Option Origin) (after : Document) : Prop where
  revision : after.revision = o.elim d.revision d.revision.change
  model : o = none → after.model = d.model

namespace Document.Counts

variable {d after : Document} {o : Option Origin}

theorem refl (d : Document) : d.Counts none d := ⟨rfl, fun _ => rfl⟩

theorem apply (e : Edited ActNode) (h : e.origin = none → e.part.model = d.model) :
    d.Counts e.origin (d.apply e) := by
  obtain ⟨part, origin⟩ := e
  cases origin with
  | none => exact ⟨rfl, h⟩
  | some o => exact ⟨rfl, nofun⟩

theorem clearHighlights (h : d.Counts o after) : d.Counts o after.clearHighlights :=
  ⟨h.revision, fun ho => after.model_clearHighlights.trans (h.model ho)⟩

theorem settle (h : d.Counts o after) (drag : Drag) : d.Counts o (after.settle drag) := by
  unfold Document.settle
  split
  · exact h
  · exact h.clearHighlights

end Document.Counts

/-- What a target takes is counted as a change of it. -/
theorem Document.counts_accepted {d : Document} {place : Place .act} {part : place.target.Part}
    {c : Component} {e : Edited place.target.Part} (h : place.target.accept part c = .ok e) :
    d.Counts (some place.target.origin) (d.apply ⟨place.path.put e d.root, e.origin⟩) := by
  have horigin := Target.origin_accept h
  refine Eq.subst (motive := (d.Counts · _)) horigin
    (Document.Counts.apply ⟨place.path.put e d.root, e.origin⟩ fun hnone => ?_)
  cases horigin.symm.trans hnone

namespace Operation

variable {d : Document}

/-- What an action is announced as is what it is seen to change. -/
theorem counts_edited {path : Path .act b} {part : b.Part} {x : Action} {e : Edited b.Part}
    (hpart : path.get? d.root = some part) (he : x.on b part = .ok e)
    (reply : Reply) :
    let after := d.apply ⟨path.put e d.root, e.origin⟩
    d.Counts ((edit path x).change? d (after, .ok reply)) after := by
  have hstored : (d.apply ⟨path.put e d.root, e.origin⟩).stored path = d.stored path ↔
      b.widgets e.part = b.widgets part := by
    unfold Document.stored
    rw [Document.root_apply, Path.get?_put hpart, hpart]
    exact Option.some_inj
  simp only [change?, hstored]
  obtain ⟨hcontrol, rfl⟩ | ⟨horigin, hwidgets⟩ := Action.on_tells he
  · rw [if_pos ⟨hcontrol, rfl⟩, Path.put_get? hpart]
    exact Document.Counts.refl d
  · rw [if_neg fun h => hwidgets h.1 h.2, ← horigin]
    refine Document.Counts.apply ⟨path.put e d.root, e.origin⟩ fun hnone => ?_
    cases horigin.symm.trans hnone

/-- Whatever is done to a document, it counts the change that is seen. -/
theorem counts (op : Operation) (d : Document) :
    d.Counts (op.change? d (op.on d)) (op.on d).1 := by
  have hends := op.ends d
  generalize op.on d = after at hends
  cases hends with
  | fault op f => cases op <;> exact Document.Counts.refl d
  | missedAt after result => cases result <;> exact (Document.Counts.refl d).settle after
  | missedOn after result => cases result <;> exact Document.Counts.refl d
  | setReadOnly r => exact ⟨rfl, fun _ => d.root.model_setReadOnly r⟩
  | highlighted => exact ⟨rfl, fun _ => d.root.model_highlight _⟩
  | droppedAt hl hc he =>
    simp only [change?, hl, Option.map_some]
    exact (Document.counts_accepted he.accept).clearHighlights
  | droppedOn hpart hc he => exact Document.counts_accepted he.accept
  | accepted hpart he => exact Document.counts_accepted he
  | edited hpart he => exact counts_edited hpart he .done

end Operation

/-! ## Everything that can be done -/

/-- An operation, in place as it is carried out; or something that is no edit. -/
inductive Deed
  | operate (op : Operation)
  | setReadOnlyAt {b : Site} (path : Path .act b) (readOnly : Bool)
  | setHighlightedAt (place : Place .act) (on : Bool)
  | clearHighlights
  | listTargets
  | markClean
  | subscribe

namespace Deed

def on : Deed → Document → Document.After
  | operate op, d => op.inPlace d
  | setReadOnlyAt (b := b) path r, d => d.change path fun q => .ok ⟨b.setReadOnly r q, none⟩
  | setHighlightedAt place on, d =>
    d.change place.path fun q => .ok ⟨place.target.setHighlighted on q, none⟩
  | clearHighlights, d => (d.clearHighlights, .ok .done)
  | listTargets, d => (d, .ok .done)
  | markClean, d => (d.markClean, .ok .done)
  | subscribe, d => (d.subscribe, .ok .done)

end Deed

/-- What is noted of a run: each change, each save and each new listener. -/
inductive Mark
  | change (o : Origin)
  | saved
  | subscribed
deriving DecidableEq

def Mark.change? : Mark → Option Origin
  | change o => some o
  | saved | subscribed => none

def Deed.mark? : Deed → Document → Option Mark
  | operate op, d => (op.change? d (op.inPlace d)).map .change
  | markClean, _ => some .saved
  | subscribe, _ => some .subscribed
  | setReadOnlyAt _ _, _ | setHighlightedAt _ _, _ | clearHighlights, _ | listTargets, _ => none

namespace Document

/-- The document after a run. -/
def perform (d : Document) (deeds : List Deed) : Document :=
  deeds.foldl (fun d deed => (deed.on d).1) d

/-- What is noted of a run, in order. -/
def chronicle : List Deed → Document → List Mark
  | [], _ => []
  | deed :: deeds, d => (deed.mark? d).toList ++ chronicle deeds (deed.on d).1

end Document

namespace Revision

def mark (r : Revision) : Mark → Revision
  | .change o => r.change o
  | .saved => { r with dirty := false }
  | .subscribed => { r with heard := r.heard ++ [[]] }

end Revision

theorem Target.model_setHighlighted (t : Target) (on : Bool) (part : t.Part) :
    t.site.model (t.setHighlighted on part) = t.site.model part := by
  cases t with
  | slot f => exact Slot.model_withFrame _ part
  | commands | scenes => rfl

namespace Document

variable {d : Document}

/-- What is set on a part and is no part of its script is not counted. -/
theorem counts_flag {path : Path .act b} {flag : b.Part → b.Part}
    (h : ∀ q, b.model (flag q) = b.model q) :
    d.Counts none (d.change path fun q => .ok ⟨flag q, none⟩).1 := by
  unfold change
  cases hpart : path.get? d.root with
  | none => exact Counts.refl d
  | some q =>
    refine Counts.apply ⟨path.put ⟨flag q, none⟩ d.root, none⟩ fun _ => ?_
    calc Site.act.model (path.put ⟨flag q, none⟩ d.root)
        = path.putModel (b.model (flag q)) (Site.act.model d.root) :=
          path.model_put ⟨flag q, none⟩ hpart
      _ = path.putModel (b.model q) (Site.act.model d.root) := by rw [h q]
      _ = Site.act.model (path.put ⟨q, none⟩ d.root) := (path.model_put ⟨q, none⟩ hpart).symm
      _ = d.model := congrArg Site.act.model (Path.put_get? hpart)

/-- What is known of the changes after something was done is told by what is noted of it, and the
script is the same unless that is a change. -/
theorem on_marked (deed : Deed) (d : Document) :
    (deed.on d).1.revision = (deed.mark? d).elim d.revision d.revision.mark ∧
      ((∀ o, deed.mark? d ≠ some (.change o)) → (deed.on d).1.model = d.model) := by
  have hunmarked : ∀ {after : Document}, d.Counts none after →
      after.revision = d.revision ∧ ((∀ o, none ≠ some (Mark.change o)) → after.model = d.model) :=
    fun h => ⟨h.revision, fun _ => h.model rfl⟩
  cases deed with
  | operate op =>
    have hcounts := op.counts d
    rw [← op.inPlace_eq] at hcounts
    dsimp only [Deed.on, Deed.mark?]
    cases hchange : op.change? d (op.inPlace d) with
    | none =>
      rw [hchange] at hcounts
      exact hunmarked hcounts
    | some o =>
      rw [hchange] at hcounts
      exact ⟨hcounts.revision, fun hnone => absurd rfl (hnone o)⟩
  | setReadOnlyAt path r => exact hunmarked (counts_flag (Site.model_setReadOnly r _))
  | setHighlightedAt place on =>
    exact hunmarked (counts_flag (place.target.model_setHighlighted on))
  | clearHighlights => exact hunmarked (Counts.refl d).clearHighlights
  | listTargets => exact hunmarked (Counts.refl d)
  | markClean | subscribe => exact ⟨rfl, fun _ => rfl⟩

end Document

/-! ## Runs -/

namespace Revision

variable (r : Revision) (ms : List Mark)

theorem version_foldl :
    (ms.foldl mark r).version = r.version + (ms.filterMap Mark.change?).length := by
  induction ms generalizing r with
  | nil => rfl
  | cons m ms ih =>
    rw [List.foldl_cons, ih]
    cases m with
    | change o =>
      rw [List.filterMap_cons_some (show (Mark.change o).change? = some o from rfl),
        List.length_cons]
      simp only [mark, change]
      omega
    | saved | subscribed =>
      rw [List.filterMap_cons_none rfl]
      rfl

/-- There is a change behind the last save. -/
def Unsaved (ms : List Mark) : Prop :=
  ∃ before o rest, ms = before ++ .change o :: rest ∧ .saved ∉ rest

theorem unsaved_cons (m : Mark) :
    Unsaved (m :: ms) ↔ Unsaved ms ∨ m.change?.isSome = true ∧ .saved ∉ ms := by
  constructor
  · rintro ⟨before, o, rest, hsplit, hrest⟩
    cases before with
    | nil =>
      cases hsplit
      exact .inr ⟨rfl, hrest⟩
    | cons first before =>
      cases hsplit
      exact .inl ⟨before, o, rest, rfl, hrest⟩
  · rintro (⟨before, o, rest, rfl, hrest⟩ | ⟨hchange, hrest⟩)
    · exact ⟨m :: before, o, rest, rfl, hrest⟩
    · cases m with
      | change o => exact ⟨[], o, ms, rfl, hrest⟩
      | saved | subscribed => cases hchange

theorem dirty_foldl :
    (ms.foldl mark r).dirty = true ↔ Unsaved ms ∨ r.dirty = true ∧ .saved ∉ ms := by
  induction ms generalizing r with
  | nil => simp [Unsaved]
  | cons m ms ih =>
    rw [List.foldl_cons, ih, unsaved_cons, List.mem_cons]
    cases m with
    | change o =>
      simpa [mark, change, Mark.change?] using fun _ hrest => .inr hrest
    | saved | subscribed => simp [mark, Mark.change?]

theorem length_heard_foldl :
    (ms.foldl mark r).heard.length = r.heard.length + ms.count .subscribed := by
  induction ms generalizing r with
  | nil => rfl
  | cons m ms ih =>
    rw [List.foldl_cons, ih, List.count_cons]
    cases m with
    | change o => simp [mark, change]
    | saved => simp [mark]
    | subscribed =>
      simp only [mark, List.length_append, List.length_singleton, beq_self_eq_true, if_true]
      omega

/-- A listener hears of each change that comes after it, in order. -/
theorem heard_foldl {i : Nat} {os : List Origin} (h : r.heard[i]? = some os) :
    (ms.foldl mark r).heard[i]? = some (os ++ ms.filterMap Mark.change?) := by
  induction ms generalizing r os with
  | nil => rw [List.filterMap_nil, List.append_nil]; exact h
  | cons m ms ih =>
    rw [List.foldl_cons]
    cases m with
    | change o =>
      have hnext : (r.mark (.change o)).heard[i]? = some (os ++ [o]) := by
        simp [mark, change, h]
      rw [ih _ hnext, List.append_assoc]
      rfl
    | saved =>
      rw [List.filterMap_cons_none rfl]
      exact ih _ h
    | subscribed =>
      obtain ⟨hi, -⟩ := List.getElem?_eq_some_iff.mp h
      rw [List.filterMap_cons_none rfl]
      exact ih _ ((List.getElem?_append_left hi).trans h)

end Revision

namespace Document

/-- A document knows of its changes what was noted of the run. -/
theorem revision_perform (d : Document) (deeds : List Deed) :
    (d.perform deeds).revision = (d.chronicle deeds).foldl Revision.mark d.revision := by
  induction deeds generalizing d with
  | nil => rfl
  | cons deed deeds ih =>
    refine (ih _).trans ?_
    rw [(on_marked deed d).1, chronicle, List.foldl_append]
    cases deed.mark? d <;> rfl

theorem perform_append (d : Document) (earlier later : List Deed) :
    d.perform (earlier ++ later) = (d.perform earlier).perform later := List.foldl_append

/-- The script changes only with a change that is noted. -/
theorem model_perform {d : Document} {deeds : List Deed}
    (h : (d.chronicle deeds).filterMap Mark.change? = []) :
    (d.perform deeds).model = d.model := by
  induction deeds generalizing d with
  | nil => rfl
  | cons deed deeds ih =>
    rw [chronicle, List.filterMap_append, List.append_eq_nil_iff] at h
    refine (ih h.2).trans ((on_marked deed d).2 fun o hmark => ?_)
    rw [hmark] at h
    cases h.1

/-- Whatever is done to an opened document, its version is the number of changes that were seen, it
is dirty if and only if one of them came after the last save, each listener has heard of those that
came after it, and where the script differs from what it was the version has gone up. -/
theorem revisions_exact {a : Act} {opened : Document} (h : Document.ofAct a = .ok opened)
    (deeds : List Deed) :
    (opened.perform deeds).version =
        ((opened.chronicle deeds).filterMap Mark.change?).length ∧
      ((opened.perform deeds).dirty = true ↔ ∃ before o rest,
        opened.chronicle deeds = before ++ .change o :: rest ∧ .saved ∉ rest) ∧
      (opened.perform deeds).heard.length = (opened.chronicle deeds).count .subscribed ∧
      (∀ before rest, opened.chronicle deeds = before ++ .subscribed :: rest →
        (opened.perform deeds).heard[before.count .subscribed]? =
          some (rest.filterMap Mark.change?)) ∧
      ∀ earlier later, deeds = earlier ++ later →
        (opened.perform deeds).model ≠ (opened.perform earlier).model →
          (opened.perform earlier).version < (opened.perform deeds).version := by
  have hopened : opened.revision = ⟨0, false, []⟩ := by
    obtain ⟨root, -, h⟩ := bind_eq_ok h
    cases h
    rfl
  have hafter := opened.revision_perform deeds
  rw [hopened] at hafter
  refine ⟨?_, ?_, ?_, ?_, ?_⟩
  · have hversion := Revision.version_foldl ⟨0, false, []⟩ (opened.chronicle deeds)
    rw [← hafter, Nat.zero_add] at hversion
    exact hversion
  · have hdirty := Revision.dirty_foldl ⟨0, false, []⟩ (opened.chronicle deeds)
    rw [← hafter] at hdirty
    exact hdirty.trans (or_iff_left fun hnot => Bool.false_ne_true hnot.1)
  · have hlength := Revision.length_heard_foldl ⟨0, false, []⟩ (opened.chronicle deeds)
    rw [← hafter, List.length_nil, Nat.zero_add] at hlength
    exact hlength
  · intro before rest hsplit
    rw [hsplit, List.foldl_append] at hafter
    have hlength := Revision.length_heard_foldl ⟨0, false, []⟩ before
    rw [List.length_nil, Nat.zero_add] at hlength
    generalize before.foldl Revision.mark ⟨0, false, []⟩ = r at hafter hlength
    have hnew : (r.mark .subscribed).heard[before.count .subscribed]? = some [] := by
      rw [← hlength]
      exact List.getElem?_concat_length
    have hheard := Revision.heard_foldl _ rest hnew
    rw [← List.foldl_cons, ← hafter] at hheard
    exact hheard
  · rintro earlier later rfl hdiffers
    have hlater := Revision.version_foldl (opened.perform earlier).revision
      ((opened.perform earlier).chronicle later)
    rw [← revision_perform, ← perform_append] at hlater
    have hsome : ((opened.perform earlier).chronicle later).filterMap Mark.change? ≠ [] := by
      intro hnone
      exact hdiffers ((congrArg model (opened.perform_append earlier later)).trans
        (model_perform hnone))
    have hpos := List.length_pos_iff.mpr hsome
    change (opened.perform (earlier ++ later)).version = (opened.perform earlier).version + _
      at hlater
    omega

end Document

def sampleSlot : Place .act := ⟨.slot .text, .step .scenes (.step (.scene 0) (.step .text .here))⟩

def sampleLiteral : Path .act (.node .text) :=
  .step .scenes (.step (.scene 0) (.step .text (.step .occupant .here)))

/-- A text is put into the scene and saved, and then typed over, twice with the same. -/
def sampleDeeds : List Deed :=
  [.subscribe, .operate (.accept sampleSlot (.expr (.text "b"))), .markClean,
   .operate (.edit sampleLiteral (.setText "c")), .operate (.edit sampleLiteral (.setText "c"))]

/-- The listener heard of two changes, and the second is not saved. -/
theorem sampleDeeds_counted :
    Document.ofAct ⟨[sampleScene .gap]⟩ = .ok sampleDocument ∧
      (sampleDocument.perform sampleDeeds).version = 2 ∧
      (sampleDocument.perform sampleDeeds).heard[0]? = some [.slotFilled, .control] ∧
      (sampleDocument.perform sampleDeeds).dirty = true := by
  have hopened : Document.ofAct ⟨[sampleScene .gap]⟩ = .ok sampleDocument := rfl
  have hmarks : sampleDocument.chronicle sampleDeeds =
      [.subscribed, .change .slotFilled, .saved, .change .control] := rfl
  obtain ⟨hversion, hdirty, -, hheard, -⟩ := Document.revisions_exact hopened sampleDeeds
  rw [hmarks] at hversion hdirty hheard
  refine ⟨hopened, hversion, hheard [] _ rfl, hdirty.mpr ?_⟩
  exact ⟨[.subscribed, .change .slotFilled, .saved], .control, [], rfl, List.not_mem_nil⟩

end SceneScript
