import SceneScript.Proofs.Editor.LocalEdits
import SceneScript.Proofs.Editor.Revisions

/-! Lists that only grow. The outline of a script keeps the kinds of the entries of its lists, and
nothing of what is inside an expression. No edit of an entry changes it, and a component that is
appended to a list or dropped on its gap puts one entry at the end of that list. -/

namespace SceneScript

variable {α : Type} {a b : Site}

/-! ## Outlines -/

def Statement.kind (s : Statement) : Kind := (Component.statement s).kind

def Scene.kind (s : Scene) : Kind := (Component.scene s).kind

/-- Where a scene has commands. -/
inductive Side
  | before
  | after
deriving DecidableEq

def Scene.commands (s : Scene) : Side → List Statement
  | .before => s.preCommands.commands
  | .after => s.postCommands.commands

/-- The kind of a scene, and those of its commands. -/
structure SceneOutline where
  kind : Kind
  commands : Side → List Kind

def Scene.outline (s : Scene) : SceneOutline := ⟨s.kind, fun side => (s.commands side).map Statement.kind⟩

/-- With one command more on a side. -/
def SceneOutline.append (o : SceneOutline) (side : Side) (k : Kind) : SceneOutline :=
  { o with commands := fun s => if s = side then o.commands side ++ [k] else o.commands s }

namespace Site

abbrev Outline : Site → Type
  | slot _ | node _ => Unit
  | statement => Kind
  | commands | sequence => List Kind
  | scene => SceneOutline
  | scenes | act => List SceneOutline

def outline : (s : Site) → s.Model → s.Outline
  | slot _, _ | node _, _ => ()
  | statement, m => m.kind
  | commands, m => m.map Statement.kind
  | sequence, m => m.commands.map Statement.kind
  | scene, m => m.outline
  | scenes, m => m.map Scene.outline
  | act, m => m.scenes.map Scene.outline

end Site

theorem map_set_of_eq {β : Type} {f : α → β} {as : List α} {i : Nat} {old new : α}
    (h : as[i]? = some old) (hf : f new = f old) : (as.set i new).map f = as.map f := by
  obtain ⟨hi, rfl⟩ := List.getElem?_eq_some_iff.mp h
  rw [List.map_set, hf, ← List.map_set, List.set_getElem_self]

/-- What keeps its own outline keeps that of the part around it. -/
theorem Step.outline_putModel {s : Step a b} {m : a.Model} {old new : b.Model}
    (h : s.model? m = some old) (hnew : b.outline new = b.outline old) :
    a.outline (s.putModel new m) = a.outline m := by
  cases s with
  | occupant | op1 | op2 | titleVideo | collection | relatedVideo => rfl
  | value =>
    cases m with
    | get name => cases h
    | set name value => rfl
  | command i | scene i => exact map_set_of_eq h hnew
  | commands | scenes =>
    cases h
    exact hnew
  | preCommands | postCommands =>
    have hcommands : new.commands.map Statement.kind = old.commands.map Statement.kind := hnew
    cases h
    cases m <;> (refine congrArg (SceneOutline.mk _) (funext fun side => ?_)
                 cases side <;> first | exact hcommands | rfl)
  | duration => cases m <;> rfl
  | text | source | offset =>
    cases m <;> rfl

theorem Path.outline_putModel {path : Path a b} {m : a.Model} {old new : b.Model}
    (h : path.model? m = some old) (hnew : b.outline new = b.outline old) :
    a.outline (path.putModel new m) = a.outline m := by
  induction path with
  | here =>
    cases h
    exact hnew
  | step s rest ih =>
    obtain ⟨part, hpart, hrest⟩ := Option.bind_eq_some_iff.mp h
    simp only [putModel, hpart]
    exact Step.outline_putModel hpart (ih hrest hnew)

/-! ## The lists of a script -/

inductive ScriptList
  | scenes
  | commands (scene : Nat) (side : Side)
deriving DecidableEq

/-- The side of a scene a path goes through. -/
def Side.ofPath? : Path .scene b → Option Side
  | .step .preCommands _ => some before
  | .step .postCommands _ => some after
  | _ => none

namespace ScriptList

/-- The kinds of a list's entries in order, if there is such a list. -/
def kinds (a : Act) : ScriptList → Option (List Kind)
  | scenes => some (a.scenes.map Scene.kind)
  | commands i side => a.scenes[i]?.map fun s => (s.commands side).map Statement.kind

/-- The list a component is appended to at the end of a path. An act and a command sequence stand
for their lists. -/
def ofPath? : Path .act b → Option ScriptList
  | .here | .step .scenes .here => some scenes
  | .step .scenes (.step (.scene i) rest) => (Side.ofPath? rest).map (commands i)

/-- The outline of a script after a component became the last entry of a list. -/
def grow (c : Component) : ScriptList → List SceneOutline → List SceneOutline
  | scenes, o => o ++ (c.scene?.map Scene.outline).toList
  | commands i side, o => o.modify i (·.append side c.kind)

/-- What the entries of a list are. -/
def category : ScriptList → Category
  | scenes => .scene
  | commands _ _ => .statement

end ScriptList

/-! ## Growing -/

/-- One entry more, made of a component, at the end of a list. -/
def Site.Appends (c : Component) : (s : Site) → s.Outline → s.Outline → Prop
  | commands, old, new | sequence, old, new => ∃ s, c = .statement s ∧ new = old ++ [s.kind]
  | scenes, old, new | act, old, new => ∃ s, c = .scene s ∧ new = old ++ [s.outline]
  | slot _, _, _ | node _, _, _ | statement, _, _ | scene, _, _ => False

/-- Whether a part is a command or inside an expression, where there are no lists. -/
def Site.isInner : Site → Bool
  | slot _ | node _ | statement => true
  | commands | sequence | scene | scenes | act => false

theorem Path.isInner (path : Path a b) (h : a.isInner = true) : b.isInner = true := by
  induction path with
  | here => exact h
  | step s rest ih =>
    refine ih ?_
    cases s <;> first | rfl | cases h

theorem Site.not_appends_inner {c : Component} {s : Site} (h : s.isInner = true)
    {old new : s.Outline} : ¬s.Appends c old new := by
  cases s with
  | slot | node | statement => exact id
  | commands | sequence | scene | scenes | act => cases h

theorem CommandSequence.outline_append {c : Component} {path : Path .sequence b}
    {m : CommandSequence} {old new : b.Model} (h : path.model? m = some old)
    (hnew : b.Appends c (b.outline old) (b.outline new)) :
    ∃ t, c = .statement t ∧
      Site.sequence.outline (path.putModel new m) = Site.sequence.outline m ++ [t.kind] := by
  cases path with
  | here =>
    cases h
    exact hnew
  | step s rest =>
    cases s
    cases rest with
    | here =>
      cases h
      exact hnew
    | step s rest =>
      cases s
      exact absurd hnew (Site.not_appends_inner (rest.isInner rfl))

/-- What is appended somewhere in a scene is a command on one side of it. -/
theorem Scene.outline_append {c : Component} {path : Path .scene b} {s : Scene}
    {old new : b.Model} (h : path.model? s = some old)
    (hnew : b.Appends c (b.outline old) (b.outline new)) :
    ∃ side t, Side.ofPath? path = some side ∧ c = .statement t ∧
      Site.scene.outline (path.putModel new s) = s.outline.append side t.kind := by
  cases path with
  | here => exact hnew.elim
  | step step rest =>
    cases step with
    | duration | text | source | offset =>
      exact absurd hnew (Site.not_appends_inner (rest.isInner rfl))
    | preCommands =>
      obtain ⟨t, hc, hgrown⟩ := CommandSequence.outline_append (m := s.preCommands) h hnew
      refine ⟨.before, t, rfl, hc, ?_⟩
      cases s <;> (refine congrArg (SceneOutline.mk _) (funext fun side => ?_)
                   cases side <;> first | exact hgrown | rfl)
    | postCommands =>
      obtain ⟨t, hc, hgrown⟩ := CommandSequence.outline_append (m := s.postCommands) h hnew
      refine ⟨.after, t, rfl, hc, ?_⟩
      cases s <;> (refine congrArg (SceneOutline.mk _) (funext fun side => ?_)
                   cases side <;> first | exact hgrown | rfl)

theorem map_set_modify {β : Type} {f : α → β} {g : β → β} {as : List α} {i : Nat} {old new : α}
    (h : as[i]? = some old) (hf : f new = g (f old)) :
    (as.set i new).map f = (as.map f).modify i g := by
  refine List.ext_getElem? fun j => ?_
  rw [List.map_set, List.getElem?_modify]
  by_cases hj : i = j
  · subst hj
    have hi : i < (as.map f).length := by
      rw [List.length_map]
      exact (List.getElem?_eq_some_iff.mp h).1
    rw [List.getElem?_set_self hi, List.getElem?_map, h, hf]
    simp
  · rw [List.getElem?_set_ne hj]
    simp [hj]

namespace ScriptList

/-- What is appended at the end of a path is appended to a list of the script. -/
theorem outline_grow {c : Component} {m : Act} {path : Path .act b} {old new : b.Model}
    (h : path.model? m = some old) (hnew : b.Appends c (b.outline old) (b.outline new)) :
    ∃ l, ofPath? path = some l ∧ l.category = c.category ∧
      Site.act.outline (path.putModel new m) = l.grow c (Site.act.outline m) := by
  have hscenes : ∀ o o' : List SceneOutline, Site.scenes.Appends c o o' →
      scenes.category = c.category ∧ o' = scenes.grow c o := by
    rintro o _ ⟨s, rfl, rfl⟩
    exact ⟨rfl, rfl⟩
  cases path with
  | here =>
    cases h
    exact ⟨scenes, rfl, hscenes _ _ hnew⟩
  | step s rest =>
    cases s
    cases rest with
    | here =>
      cases h
      exact ⟨scenes, rfl, hscenes _ _ hnew⟩
    | step s rest =>
      cases s with
      | scene i =>
        obtain ⟨s, hs, hold⟩ : ∃ s, m.scenes[i]? = some s ∧ rest.model? s = some old :=
          Option.bind_eq_some_iff.mp h
        obtain ⟨side, t, hside, rfl, hscene⟩ := Scene.outline_append hold hnew
        refine ⟨commands i side, by simp only [ofPath?, hside, Option.map_some], rfl, ?_⟩
        simp only [Path.putModel, Step.model?, hs]
        exact map_set_modify hs hscene

theorem kinds_eq (m : Act) (l : ScriptList) : l.kinds m =
    match l with
    | scenes => some ((Site.act.outline m).map SceneOutline.kind)
    | commands i side => (Site.act.outline m)[i]?.map (·.commands side) := by
  cases l <;> simp [kinds, Site.outline, Scene.outline, Function.comp_def]

/-- A list that grew has one entry more; the others that were there have the entries they had. -/
theorem kinds_grow {l grown : ScriptList} {c : Component} {m m' : Act} {ks : List Kind}
    (hc : grown.category = c.category)
    (h : Site.act.outline m' = grown.grow c (Site.act.outline m)) (hl : l.kinds m = some ks) :
    l.kinds m' = some (ks ++ if grown = l then [c.kind] else []) := by
  rw [kinds_eq] at hl ⊢
  rw [h]
  generalize Site.act.outline m = o at hl
  cases grown with
  | scenes =>
    cases c with
    | scene s =>
      have hscene : s.outline.kind = (Component.scene s).kind := rfl
      cases l with
      | scenes =>
        cases hl
        simp [grow, Component.scene?, hscene]
      | commands i side =>
        obtain ⟨so, hso, rfl⟩ := Option.map_eq_some_iff.mp hl
        simp [grow, List.getElem?_append_left (List.getElem?_eq_some_iff.mp hso).1, hso]
    | expr | statement | sequence | act => cases hc
  | commands j other =>
    cases l with
    | scenes =>
      cases hl
      have hkinds : (o.modify j (·.append other c.kind)).map SceneOutline.kind =
          o.map SceneOutline.kind := by
        refine List.ext_getElem? fun i => ?_
        rw [List.getElem?_map, List.getElem?_map, List.getElem?_modify]
        cases o[i]? with
        | none => rfl
        | some so => by_cases hij : j = i <;> simp [hij, SceneOutline.append]
      simp [grow, hkinds]
    | commands i side =>
      obtain ⟨so, hso, rfl⟩ := Option.map_eq_some_iff.mp hl
      by_cases hij : j = i
      · by_cases hside : side = other
        · simp [grow, hso, hij, hside, SceneOutline.append]
        · simp [grow, hso, hij, hside, Ne.symm hside, SceneOutline.append]
      · simp [grow, hso, hij]

end ScriptList

/-! ## What is added to a list -/

/-- The component an action appends. -/
def Action.appended? : Action → Option Component
  | append c | appendComponent c => some c
  | _ => none

theorem SceneNode.outline_withComment (n : SceneNode) (comment : CommentBox) :
    (n.withFrame { n.frame with comment }).model.outline = n.model.outline := by
  cases n <;> (refine congrArg (SceneOutline.mk _) (funext fun side => ?_)
               cases side <;> rfl)

theorem ListEditor.appends_statement {l : ListEditor StatementNode} {s : Statement}
    {e : Edited (ListEditor StatementNode)} (h : l.append s = .ok e) :
    Site.commands.Appends (.statement s) (Site.commands.outline (Site.commands.model l))
      (Site.commands.outline (Site.commands.model e.part)) :=
  ⟨s, rfl, (congrArg (List.map Statement.kind) (model_appendStatement h)).trans List.map_append⟩

theorem ListEditor.appends_scene {l : ListEditor SceneNode} {s : Scene}
    {e : Edited (ListEditor SceneNode)} (h : l.append s = .ok e) :
    Site.scenes.Appends (.scene s) (Site.scenes.outline (Site.scenes.model l))
      (Site.scenes.outline (Site.scenes.model e.part)) :=
  ⟨s, rfl, (congrArg (List.map Scene.outline) (model_appendScene h)).trans List.map_append⟩

section Actions

variable {x : Action} {p : b.Part} {e : Edited b.Part} (h : x.on b p = .ok e)

include h

/-- Whatever an action does other than appending, it does inside an entry. -/
theorem Action.outline_kept (hx : x.appended? = none) :
    b.outline (b.model e.part) = b.outline (b.model p) := by
  cases succeeds h with
  | @setTitle text n e | @setComment text n e =>
    exact (congrArg Scene.outline (Site.scene.model_announce ..)).trans
      (n.outline_withComment e.part)
  | setNumber | setText | setUrl | setOperator | selectGot | selectSet => rfl
  | fill | fillComponent | clear => rfl
  | appendStatement | appendScene | appendStatementComponent | appendSceneComponent | addCommand
  | addScene => cases hx

theorem Action.appends {c : Component} (hx : x.appended? = some c) :
    b.Appends c (b.outline (b.model p)) (b.outline (b.model e.part)) := by
  cases succeeds h with
  | appendStatement hadd | appendStatementComponent hadd | addCommand hadd =>
    cases hx
    exact ListEditor.appends_statement hadd
  | appendScene hadd | appendSceneComponent hadd | addScene hadd =>
    cases hx
    exact ListEditor.appends_scene hadd
  | setNumber | setText | setUrl | setOperator | selectGot | selectSet | setTitle | setComment
  | fill | fillComponent | clear => cases hx

end Actions

/-- The list at a place, if the target there is one. -/
def Place.list? (p : Place .act) : Option ScriptList :=
  match p.target with
  | .slot _ => none
  | .commands | .scenes => ScriptList.ofPath? p.path

/-- What an operation added to which list, told by how it was answered. -/
def Operation.addition? (op : Operation) (d : Document) (after : Document.After) :
    Option (ScriptList × Component) :=
  match op, after.2 with
  | dropAt drag i, .ok (.released _ (.ok .dropped)) => do
    let l ← Site.act.target? d.root i
    let c ← drag.carried?
    l.place.list?.map (·, c)
  | dropOn drag place, .ok (.released _ (.ok .dropped)) => do
    let c ← drag.carried?
    place.list?.map (·, c)
  | accept place c, .ok _ => place.list?.map (·, c)
  | edit path x, .ok _ => do some (← ScriptList.ofPath? path, ← x.appended?)
  | _, _ => none

/-- The second script has these additions, and otherwise the lists of the first. -/
def Act.Adds (m : Act) (added : Option (ScriptList × Component)) (m' : Act) : Prop :=
  match added with
  | none => Site.act.outline m' = Site.act.outline m
  | some (l, c) =>
    l.category = c.category ∧ Site.act.outline m' = l.grow c (Site.act.outline m)

/-- A target that takes a component does so in its list, or inside an entry. -/
theorem Target.Takes.adds {c : Component} {place : Place .act} {m : Act}
    {old new : place.target.site.Model} (hold : place.path.model? m = some old)
    (h : place.target.Takes c old new) :
    m.Adds (place.list?.map (·, c)) (place.path.putModel new m) := by
  obtain ⟨target, path⟩ := place
  have hlist : ∀ {l}, ScriptList.ofPath? path = some l ∧ l.category = c.category ∧
      Site.act.outline (path.putModel new m) = l.grow c (Site.act.outline m) →
      m.Adds ((ScriptList.ofPath? path).map (·, c)) (path.putModel new m) := by
    rintro l ⟨hl, hgrow⟩
    rw [hl]
    exact hgrow
  cases h with
  | slot => exact Path.outline_putModel hold rfl
  | command ss s hc =>
    have happends : Site.commands.Appends c (ss.map Statement.kind)
        ((ss ++ [s]).map Statement.kind) :=
      ⟨s, hc, List.map_append⟩
    obtain ⟨l, hl⟩ := ScriptList.outline_grow hold happends
    exact hlist hl
  | scene ss s hc =>
    have happends : Site.scenes.Appends c (ss.map Scene.outline)
        ((ss ++ [s]).map Scene.outline) :=
      ⟨s, hc, List.map_append⟩
    obtain ⟨l, hl⟩ := ScriptList.outline_grow hold happends
    exact hlist hl

theorem Document.adds_accepted {d : Document} {place : Place .act} {part : place.target.Part}
    (hpart : place.path.get? d.root = some part) {c : Component} {e : Edited place.target.Part}
    (h : place.target.accept part c = .ok e) (o : Option Origin) :
    d.model.Adds (place.list?.map (·, c)) (d.apply ⟨place.path.put e d.root, o⟩).model := by
  rw [model_apply]
  have hput : (place.path.put e d.root).model = _ := place.path.model_put e hpart
  rw [hput]
  exact (place.target.takes_accept h).adds (Path.model?_of_get? hpart)

theorem Document.model_settle (d : Document) (drag : Drag) : (d.settle drag).model = d.model := by
  unfold settle
  cases drag.isDragging with
  | true => rfl
  | false => exact d.model_clearHighlights

/-! ## Operations -/

namespace Operation

theorem adds_edited {d : Document} {path : Path .act b} {part : b.Part} {x : Action}
    {e : Edited b.Part} (hpart : path.get? d.root = some part) (he : x.on b part = .ok e) :
    d.model.Adds (do some (← ScriptList.ofPath? path, ← x.appended?))
      (d.apply ⟨path.put e d.root, e.origin⟩).model := by
  have hold : path.model? d.model = some (b.model part) := Path.model?_of_get? hpart
  have hput : (d.apply ⟨path.put e d.root, e.origin⟩).model =
      path.putModel (b.model e.part) d.model :=
    (d.model_apply _).trans (path.model_put e hpart)
  rw [hput]
  cases hx : x.appended? with
  | none =>
    have hkept := Path.outline_putModel hold (Action.outline_kept he hx)
    cases ScriptList.ofPath? path <;> exact hkept
  | some c =>
    obtain ⟨l, hl, hgrow⟩ := ScriptList.outline_grow hold (Action.appends he hx)
    rw [hl]
    exact hgrow

/-- Whatever is done to a document, its lists have the addition that is seen, and no other. -/
theorem adds (d : Document) (op : Operation) :
    d.model.Adds (op.addition? d (op.on d)) (op.on d).1.model := by
  have hends := op.ends d
  generalize op.on d = after at hends
  cases hends with
  | fault op f => cases op <;> exact rfl
  | missedAt after result =>
    have hkept : d.model.Adds none (d.settle after).model := by rw [d.model_settle]; exact rfl
    cases result <;> exact hkept
  | missedOn after result => cases result <;> exact rfl
  | setReadOnly r => exact congrArg Site.act.outline (d.root.model_setReadOnly r)
  | highlighted => exact congrArg Site.act.outline (d.root.model_highlight _)
  | droppedAt hl hc he =>
    simp only [addition?, hl, hc, Document.model_clearHighlights]
    exact Document.adds_accepted (Site.target?_eq_some hl).2 he.accept _
  | droppedOn hpart hc he =>
    simp only [addition?, hc]
    exact Document.adds_accepted hpart he.accept _
  | accepted hpart he => exact Document.adds_accepted hpart he _
  | edited hpart he => exact adds_edited hpart he

end Operation

/-! ## Runs -/

/-- What something that was done added to which list. -/
def Deed.addition? : Deed → Document → Option (ScriptList × Component)
  | operate op, d => op.addition? d (op.inPlace d)
  | setReadOnlyAt _ _, _ | setHighlightedAt _ _, _ | clearHighlights, _ | listTargets, _
  | markClean, _ | subscribe, _ => none

theorem Deed.adds (deed : Deed) (d : Document) :
    d.model.Adds (deed.addition? d) (deed.on d).1.model := by
  cases deed with
  | operate op =>
    dsimp only [addition?, on]
    rw [op.inPlace_eq]
    exact op.adds d
  | setReadOnlyAt | setHighlightedAt | clearHighlights | listTargets | markClean | subscribe =>
    exact congrArg Site.act.outline ((Document.on_marked _ d).2 nofun)

namespace Document

/-- The components that a run adds to a list, in order. -/
def added (l : ScriptList) : List Deed → Document → List Component
  | [], _ => []
  | deed :: deeds, d =>
    ((deed.addition? d).filter (·.1 = l)).toList.map Prod.snd ++ added l deeds (deed.on d).1

/-- A list has the entries it had, and one more if one was added to it. -/
theorem kinds_on {l : ScriptList} {d : Document} {ks : List Kind} (hl : l.kinds d.model = some ks)
    (deed : Deed) : l.kinds (deed.on d).1.model =
      some (ks ++ ((deed.addition? d).filter (·.1 = l)).toList.map fun x => x.2.kind) := by
  have hadds := deed.adds d
  cases hadded : deed.addition? d with
  | none =>
    rw [hadded] at hadds
    have hsame : Site.act.outline (deed.on d).1.model = Site.act.outline d.model := hadds
    rw [ScriptList.kinds_eq] at hl ⊢
    rw [hsame, hl]
    simp
  | some addition =>
    obtain ⟨grown, c⟩ := addition
    rw [hadded] at hadds
    rw [ScriptList.kinds_grow hadds.1 hadds.2 hl]
    by_cases h : grown = l <;> simp [h, Option.filter]

theorem kinds_perform {l : ScriptList} (deeds : List Deed) : ∀ {d : Document} {ks : List Kind},
    l.kinds d.model = some ks →
      l.kinds (d.perform deeds).model = some (ks ++ (d.added l deeds).map Component.kind) := by
  induction deeds with
  | nil =>
    intro d ks hl
    rw [added, List.map_nil, List.append_nil]
    exact hl
  | cons deed deeds ih =>
    intro d ks hl
    refine (ih (kinds_on hl deed)).trans ?_
    rw [added, List.map_append, List.map_map, List.append_assoc]
    rfl

end Document

/-! ## Calls on a list -/

/-- A call that appends what the list is made of, or any component. -/
inductive AppendCall (α : Type) [Entry α]
  | append (m : Entry.Model α)
  | appendComponent (c : Component)

namespace AppendCall

variable [Entry α]

/-- A call carried out in place. -/
def on : AppendCall α → ListEditor α → Left EditorError (ListEditor α) Unit
  | append m, l => ListEditor.appendInPlace m l
  | appendComponent c, l => ListEditor.appendComponentInPlace c l

/-- What a call appends, if it succeeds. -/
def entry? : AppendCall α → Option (Entry.Model α)
  | append m => some m
  | appendComponent c => Entry.ofComponent? c

/-- A call appends its entry, or fails and leaves the list as it was. -/
theorem on_cases (call : AppendCall α) (l : ListEditor α) :
    (∃ m e, call.entry? = some m ∧ l.append m = .ok e ∧ (call.on l).result = .ok () ∧
      (call.on l).state = e.part) ∨
    ∃ f, (call.on l).result = .error f ∧ (call.on l).state = l := by
  cases call with
  | append m =>
    have hon : (append m : AppendCall α).on l = _ := ListEditor.append_performs m l
    rw [hon]
    dsimp only
    cases happend : l.append m with
    | ok e => exact .inl ⟨m, e, rfl, happend, rfl, rfl⟩
    | error f => exact .inr ⟨f, rfl, rfl⟩
  | appendComponent c =>
    have hon : (appendComponent c : AppendCall α).on l = _ :=
      ListEditor.appendComponent_performs c l
    rw [hon]
    unfold ListEditor.appendComponent
    cases hm : Entry.ofComponent? (α := α) c with
    | none => exact .inr ⟨_, rfl, rfl⟩
    | some m =>
      dsimp only
      cases happend : l.append m with
      | ok e => exact .inl ⟨m, e, hm, happend, rfl, rfl⟩
      | error f => exact .inr ⟨f, rfl, rfl⟩

end AppendCall

namespace ListEditor

variable [Entry α]

def callAll (l : ListEditor α) (calls : List (AppendCall α)) : ListEditor α :=
  calls.foldl (fun l call => (call.on l).state) l

/-- What was appended by the calls that succeeded, in order. -/
def accepted : List (AppendCall α) → ListEditor α → List (Entry.Model α)
  | [], _ => []
  | call :: calls, l =>
    (if (call.on l).result.isOk then call.entry?.toList else []) ++
      accepted calls (call.on l).state

theorem map_callAll (model : α → Entry.Model α)
    (h : ∀ {l : ListEditor α} {m e}, l.append m = .ok e →
      e.part.items.map model = l.items.map model ++ [m]) (calls : List (AppendCall α)) :
    ∀ l, (callAll l calls).items.map model = l.items.map model ++ accepted calls l := by
  induction calls with
  | nil => exact fun l => (List.append_nil _).symm
  | cons call calls ih =>
    intro l
    refine (ih (call.on l).state).trans ?_
    rw [accepted]
    obtain ⟨m, e, hm, happend, hresult, hstate⟩ | ⟨f, hresult, hstate⟩ := call.on_cases l
    · rw [hstate, hresult, hm, h happend, List.append_assoc]
      rfl
    · rw [hstate, hresult]
      rfl

end ListEditor

/-- Whatever is done to a document, each list it has keeps the entries it has and ends in one more
for each component that was appended to it or dropped on its gap. A list that was built from a
sequence ends in what was appended to it by the calls that succeeded. -/
theorem Document.lists_only_grow :
    (∀ (d : Document) (deeds : List Deed) (l : ScriptList) (ks : List Kind),
      l.kinds d.model = some ks →
        l.kinds (d.perform deeds).model = some (ks ++ (d.added l deeds).map Component.kind)) ∧
    (∀ (ss : List Statement) (items : List StatementNode) (calls : List (AppendCall StatementNode)),
      buildAll StatementNode.build ss = .ok items →
        Site.commands.model (ListEditor.callAll ⟨items, .new⟩ calls) =
          ss ++ ListEditor.accepted calls ⟨items, .new⟩) ∧
    ∀ (ss : List Scene) (items : List SceneNode) (calls : List (AppendCall SceneNode)),
      buildAll SceneNode.build ss = .ok items →
        Site.scenes.model (ListEditor.callAll ⟨items, .new⟩ calls) =
          ss ++ ListEditor.accepted calls ⟨items, .new⟩ := by
  refine ⟨fun d deeds l ks hl => kinds_perform deeds hl, fun ss items calls h => ?_,
    fun ss items calls h => ?_⟩
  · have hcalls := ListEditor.map_callAll StatementNode.model ListEditor.model_appendStatement calls
      ⟨items, .new⟩
    rwa [map_of_forall₂ StatementNode.model StatementNode.Built.model
      (forall₂_of_buildAll StatementNode.built_of_build h)] at hcalls
  · have hcalls := ListEditor.map_callAll SceneNode.model ListEditor.model_appendScene calls
      ⟨items, .new⟩
    rwa [map_of_forall₂ SceneNode.model SceneNode.Built.model
      (forall₂_of_buildAll SceneNode.built_of_build h)] at hcalls

/-- A scene that cannot be built, one that can, and a command for the scene that was there. -/
def sampleAdditions : List Deed :=
  [.operate sampleAccept,
   .operate (.accept ⟨.scenes, .step .scenes .here⟩ (.scene (sampleScene .gap))),
   .operate (.edit (.step .scenes (.step (.scene 0) (.step .preCommands .here)))
     (.append (.statement (.get "item"))))]

theorem sampleAdditions_grow :
    ScriptList.scenes.kinds sampleDocument.model = some [.textScene] ∧
      (ScriptList.commands 0 .before).kinds sampleDocument.model = some [] ∧
      ScriptList.scenes.kinds (sampleDocument.perform sampleAdditions).model =
        some [.textScene, .textScene] ∧
      (ScriptList.commands 0 .before).kinds (sampleDocument.perform sampleAdditions).model =
        some [.get] ∧
      (∃ items, buildAll StatementNode.build [.get "item"] = .ok items ∧
        Site.commands.model (ListEditor.callAll ⟨items, .new⟩
          [.append (Statement.get "x"), .appendComponent (.statement (.set "item" .gap))]) =
            [.get "item", .set "item" .gap]) ∧
      ∃ items, buildAll SceneNode.build [sampleScene .gap] = .ok items ∧
        Site.scenes.model (ListEditor.callAll ⟨items, .new⟩
          [.append sampleUnknown, .append (sampleScene .gap)]) =
            [sampleScene .gap, sampleScene .gap] := by
  obtain ⟨hdocument, hstatements, hscenes⟩ := Document.lists_only_grow
  refine ⟨rfl, rfl, (hdocument _ _ _ _ rfl).trans rfl, (hdocument _ _ _ _ rfl).trans rfl,
    ⟨_, rfl, ?_⟩, _, rfl, ?_⟩
  · exact (hstatements [.get "item"] _ _ rfl).trans rfl
  · exact (hscenes [sampleScene .gap] _ _ rfl).trans rfl

end SceneScript
