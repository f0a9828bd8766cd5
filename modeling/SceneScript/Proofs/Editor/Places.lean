import SceneScript.Proofs.Editor.Model

/-! Places in a plain script. They are numbered and replaced without a tree; a tree numbers the
places of its script in the same order, and an edit of one of its parts replaces what stands at
that place in the script. -/

namespace SceneScript

/-! ## Steps in a script -/

def Scene.preCommands : Scene → CommandSequence
  | .text s => s.preCommands
  | .video s => s.preCommands

def Scene.postCommands : Scene → CommandSequence
  | .text s => s.postCommands
  | .video s => s.postCommands

def Scene.duration : Scene → Expr .number
  | .text s => s.duration
  | .video s => s.duration

namespace Step

/-- What stands where a step leads in a script. A gap holds nothing. -/
def model? : {a b : Site} → Step a b → a.Model → Option b.Model
  | _, _, occupant, e => if e.isGap then none else some e
  | _, _, op1, .operation _ a _ => some a
  | _, _, op2, .operation _ _ b => some b
  | _, _, titleVideo, .titleOf v => some v
  | _, _, collection, .randomFrom c => some c
  | _, _, relatedVideo, .relatedTo v => some v
  | _, _, value, .set _ v => some v
  | _, _, command i, ss => ss[i]?
  | _, _, commands, s => some s.commands
  | _, _, preCommands, s => some s.preCommands
  | _, _, postCommands, s => some s.postCommands
  | _, _, duration, s => some s.duration
  | _, _, text, .text s => some s.text
  | _, _, source, .video s => some s.source
  | _, _, offset, .video s => some s.offset
  | _, _, scene i, ss => ss[i]?
  | _, _, scenes, a => some a.scenes
  | _, _, _, _ => none

/-- The script with something else where a step leads. -/
def putModel : {a b : Site} → Step a b → b.Model → a.Model → a.Model
  | _, _, occupant, e, _ => e
  | _, _, op1, a, .operation o _ b => .operation o a b
  | _, _, op2, b, .operation o a _ => .operation o a b
  | _, _, titleVideo, v, .titleOf _ => .titleOf v
  | _, _, collection, c, .randomFrom _ => .randomFrom c
  | _, _, relatedVideo, v, .relatedTo _ => .relatedTo v
  | _, _, value, v, .set name _ => .set name v
  | _, _, command i, s, ss => ss.set i s
  | _, _, commands, ss, _ => ⟨ss⟩
  | _, _, preCommands, c, .text s => .text { s with preCommands := c }
  | _, _, preCommands, c, .video s => .video { s with preCommands := c }
  | _, _, postCommands, c, .text s => .text { s with postCommands := c }
  | _, _, postCommands, c, .video s => .video { s with postCommands := c }
  | _, _, duration, e, .text s => .text { s with duration := e }
  | _, _, duration, e, .video s => .video { s with duration := e }
  | _, _, text, e, .text s => .text { s with text := e }
  | _, _, source, e, .video s => .video { s with source := e }
  | _, _, offset, e, .video s => .video { s with offset := e }
  | _, _, scene i, s, ss => ss.set i s
  | _, _, scenes, ss, _ => ⟨ss⟩
  | _, _, _, _, m => m

theorem model?_model : ∀ {a b : Site} (s : Step a b) (p : a.Part),
    s.model? (a.model p) = (s.get? p).map b.model
  | _, _, occupant, p => by
    cases p with
    | empty frame => rfl
    | full frame node => cases node <;> rfl
  | _, _, op1, p | _, _, op2, p => by cases p <;> rfl
  | _, _, titleVideo, p => by cases p <;> rfl
  | _, _, collection, p => by cases p <;> rfl
  | _, _, relatedVideo, p => by cases p; rfl
  | _, _, value, p => by cases p <;> rfl
  | _, _, command i, p | _, _, scene i, p => List.getElem?_map
  | _, _, commands, p => rfl
  | _, _, preCommands, p | _, _, postCommands, p | _, _, duration, p => by cases p <;> rfl
  | _, _, text, p | _, _, source, p | _, _, offset, p => by cases p <;> rfl
  | _, _, scenes, p => rfl

theorem model_put : ∀ {a b : Site} (s : Step a b) {p : a.Part} {old : b.Part},
    s.get? p = some old → ∀ q : b.Part, a.model (s.put q p) = s.putModel (b.model q) (a.model p)
  | _, _, occupant, p, _, h, q => by
    cases p with
    | empty frame => cases h
    | full frame node => rfl
  | _, _, op1, p, _, h, _ | _, _, op2, p, _, h, _ => by
    cases p with
    | operation o a b n => rfl
    | number field n => cases h
  | _, _, titleVideo, p, _, h, _ => by
    cases p with
    | title v n => rfl
    | text field n => cases h
  | _, _, collection, p, _, h, _ => by
    cases p with
    | random c n => rfl
    | url field n => cases h
  | _, _, relatedVideo, p, _, _, _ => by cases p; rfl
  | _, _, value, p, _, h, _ => by
    cases p with
    | get name n => cases h
    | set name v n => rfl
  | _, _, command i, p, _, _, q | _, _, scene i, p, _, _, q => List.map_set
  | _, _, commands, _, _, _, _ => rfl
  | _, _, preCommands, p, _, _, _ | _, _, postCommands, p, _, _, _
  | _, _, duration, p, _, _, _ => by cases p <;> rfl
  | _, _, text, p, _, h, _ => by
    cases p with
    | text f t => rfl
    | video f s o => cases h
  | _, _, source, p, _, h, _ | _, _, offset, p, _, h, _ => by
    cases p with
    | text f t => cases h
    | video f s o => rfl
  | _, _, scenes, _, _, _, _ => rfl

end Step

/-! ## Paths in a script -/

namespace Path

def model? : {a b : Site} → Path a b → a.Model → Option b.Model
  | _, _, here, m => some m
  | _, _, step s rest, m => (s.model? m).bind rest.model?

def putModel : {a b : Site} → Path a b → b.Model → a.Model → a.Model
  | _, _, here, m, _ => m
  | _, _, step s rest, m, whole =>
    match s.model? whole with
    | some part => s.putModel (rest.putModel m part) whole
    | none => whole

theorem model?_model {a b : Site} (path : Path a b) (p : a.Part) :
    path.model? (a.model p) = (path.get? p).map b.model := by
  induction path with
  | here => rfl
  | step s rest ih =>
    simp only [model?, get?, s.model?_model]
    cases s.get? p with
    | none => rfl
    | some q => exact ih q

theorem model?_of_get? {a b : Site} {path : Path a b} {p : a.Part} {q : b.Part}
    (h : path.get? p = some q) : path.model? (a.model p) = some (b.model q) := by
  rw [path.model?_model, h]
  rfl

/-- An edit of a part replaces what stands at its place. -/
theorem model_put {a b : Site} (path : Path a b) (e : Edited b.Part) {p : a.Part} {old : b.Part}
    (h : path.get? p = some old) :
    a.model (path.put e p) = path.putModel (b.model e.part) (a.model p) := by
  induction path with
  | here => rfl
  | step s rest ih =>
    obtain ⟨q, hq, hrest⟩ := Option.bind_eq_some_iff.mp h
    simp only [put, putModel, hq, s.model?_model, Option.map_some]
    rw [Site.model_announce, s.model_put hq, ih e hrest]

end Path

/-! ## What a replacement leaves alone -/

namespace Step

/-- Two steps from one part that differ lead to parts that do not overlap. -/
theorem model?_putModel_ne {a b b' : Site} {s : Step a b} {s' : Step a b'}
    (h : (⟨b, s⟩ : Σ b, Step a b) ≠ ⟨b', s'⟩) (q : b.Model) (m : a.Model) :
    s'.model? (s.putModel q m) = s'.model? m := by
  cases s with
  | occupant | titleVideo | collection | relatedVideo | value | commands | scenes =>
    cases s'
    exact absurd rfl h
  | op1 | op2 =>
    cases s' with
    | op1 | op2 => first | exact absurd rfl h | cases m <;> rfl
  | command i =>
    cases s' with
    | command j => exact List.getElem?_set_ne fun hij => h (by rw [hij])
  | scene i =>
    cases s' with
    | scene j => exact List.getElem?_set_ne fun hij => h (by rw [hij])
  | preCommands | postCommands | duration | text | source | offset =>
    cases s' <;> first | exact absurd rfl h | cases m <;> rfl

/-- What is put at two steps that differ can be put there in either order. -/
theorem putModel_comm {a b b' : Site} {s : Step a b} {s' : Step a b'}
    (h : (⟨b, s⟩ : Σ b, Step a b) ≠ ⟨b', s'⟩) (q : b.Model) (q' : b'.Model) (m : a.Model) :
    s.putModel q (s'.putModel q' m) = s'.putModel q' (s.putModel q m) := by
  cases s with
  | occupant | titleVideo | collection | relatedVideo | value | commands | scenes =>
    cases s'
    exact absurd rfl h
  | op1 | op2 =>
    cases s' with
    | op1 | op2 => first | exact absurd rfl h | cases m <;> rfl
  | command i =>
    cases s' with
    | command j => exact List.set_comm _ _ fun hij : j = i => h (by rw [hij])
  | scene i =>
    cases s' with
    | scene j => exact List.set_comm _ _ fun hij : j = i => h (by rw [hij])
  | preCommands | postCommands | duration | text | source | offset =>
    cases s' <;> first | exact absurd rfl h | cases m <;> rfl

/-- Of two things put where a step leads, the second is all that is left. -/
theorem putModel_putModel {a b : Site} (s : Step a b) (x y : b.Model) (m : a.Model) :
    s.putModel x (s.putModel y m) = s.putModel x m := by
  cases s with
  | occupant | commands | scenes => rfl
  | command i | scene i => exact List.set_set ..
  | op1 | op2 | titleVideo | collection | relatedVideo | value | preCommands | postCommands
  | duration | text | source | offset => cases m <;> rfl

/-- A script is itself with what stands at a step put there. -/
theorem putModel_self {a b : Site} {s : Step a b} {m : a.Model} {part : b.Model}
    (h : s.model? m = some part) : s.putModel part m = m := by
  cases s with
  | occupant =>
    obtain ⟨-, hpart⟩ := Option.ite_none_left_eq_some.mp h
    exact (Option.some.inj hpart).symm
  | command i | scene i =>
    obtain ⟨hi, hpart⟩ := List.getElem?_eq_some_iff.mp h
    exact hpart ▸ List.set_getElem_self hi
  | _ => cases m <;> cases h <;> rfl

end Step

/-- A node is never that of a gap. -/
def Site.isShown : (s : Site) → s.Model → Bool
  | .node _, e => !e.isGap
  | _, _ => true

namespace Step

theorem isShown_model? {a b : Site} {s : Step a b} {m : a.Model} {part : b.Model}
    (h : s.model? m = some part) : b.isShown part = true := by
  cases s with
  | occupant =>
    obtain ⟨hgap, hpart⟩ := Option.ite_none_left_eq_some.mp h
    cases hpart
    simpa [Site.isShown] using hgap
  | _ => rfl

theorem isShown_putModel {a b : Site} (s : Step a b) (q : b.Model) (m : a.Model) :
    a.isShown (s.putModel q m) = a.isShown m := by
  cases s with
  | op1 | op2 | titleVideo | collection | relatedVideo => cases m <;> rfl
  | _ => rfl

/-- What was put somewhere stands there. -/
theorem model?_putModel {a b : Site} {s : Step a b} {m : a.Model} {old : b.Model}
    (h : s.model? m = some old) {q : b.Model} (hq : b.isShown q = true) :
    s.model? (s.putModel q m) = some q := by
  cases s with
  | occupant =>
    have hgap : q.isGap = false := by simpa only [Site.isShown, Bool.not_eq_true'] using hq
    exact if_neg (Bool.eq_false_iff.mp hgap)
  | op1 | op2 | titleVideo | collection | relatedVideo | value | text | source | offset =>
    cases m <;> first | rfl | cases h
  | command i | scene i =>
    obtain ⟨hi, -⟩ := List.getElem?_eq_some_iff.mp h
    exact List.getElem?_set_self hi
  | preCommands | postCommands | duration => cases m <;> rfl
  | commands | scenes => rfl

end Step

namespace Path

theorem isShown_putModel {a b : Site} (path : Path a b) {new : b.Model}
    (hnew : b.isShown new = true) {m : a.Model} (h : a.isShown m = true) :
    a.isShown (path.putModel new m) = true := by
  cases path with
  | here => exact hnew
  | step s rest =>
    simp only [putModel]
    cases s.model? m with
    | none => exact h
    | some part => exact (s.isShown_putModel _ m).trans h

theorem model?_putModel {a b : Site} (path : Path a b) {m : a.Model} {old new : b.Model}
    (h : path.model? m = some old) (hnew : b.isShown new = true) :
    path.model? (path.putModel new m) = some new := by
  induction path with
  | here => rfl
  | step s rest ih =>
    obtain ⟨part, hpart, hrest⟩ := Option.bind_eq_some_iff.mp h
    have hshown := rest.isShown_putModel hnew (Step.isShown_model? hpart)
    simp only [model?, putModel, hpart, Step.model?_putModel hpart hshown]
    exact ih hrest hnew

theorem putModel_self {a b : Site} (path : Path a b) {m : a.Model} {old : b.Model}
    (h : path.model? m = some old) : path.putModel old m = m := by
  induction path with
  | here => exact (Option.some.inj h).symm
  | step s rest ih =>
    obtain ⟨part, hpart, hrest⟩ := Option.bind_eq_some_iff.mp h
    simp only [putModel, hpart]
    rw [ih hrest, Step.putModel_self hpart]

/-- Two ways that part at some step, so that neither place is inside the other. -/
inductive Apart : {a b c : Site} → Path a b → Path a c → Prop
  | fork {a b b' c c' : Site} {s : Step a b} {s' : Step a b'} (rest : Path b c) (rest' : Path b' c')
      (h : (⟨b, s⟩ : Σ b, Step a b) ≠ ⟨b', s'⟩) : Apart (step s rest) (step s' rest')
  | under {a b c c' : Site} (s : Step a b) {rest : Path b c} {rest' : Path b c'}
      (h : Apart rest rest') : Apart (step s rest) (step s rest')

/-- A replacement leaves alone whatever is apart from it. -/
theorem Apart.model?_putModel {a b c : Site} {path : Path a b} {other : Path a c}
    (hapart : path.Apart other) {m : a.Model} {old new : b.Model} (h : path.model? m = some old)
    (hnew : b.isShown new = true) : other.model? (path.putModel new m) = other.model? m := by
  induction hapart with
  | fork rest rest' hne =>
    obtain ⟨part, hpart, hrest⟩ := Option.bind_eq_some_iff.mp h
    simp only [model?, putModel, hpart]
    rw [Step.model?_putModel_ne hne]
  | @under _ _ _ _ s rest rest' hapart ih =>
    obtain ⟨part, hpart, hrest⟩ := Option.bind_eq_some_iff.mp h
    have hshown := rest.isShown_putModel hnew (Step.isShown_model? hpart)
    simp only [model?, putModel, hpart, Step.model?_putModel hpart hshown]
    exact ih hrest hnew

end Path

/-! ## Layout order in a script -/

/-- An expression's own place, and those inside it behind. -/
def slotPlaces {f : Family} (inner : List (Place (.node f))) : List (Place (.slot f)) :=
  ⟨.slot f, .here⟩ :: inner.map (Place.under .occupant)

/-- The places inside an expression. -/
def Expr.innerPlaces : {f : Family} → Expr f → List (Place (.node f))
  | _, .gap | _, .number _ | _, .text _ | _, .url _ => []
  | _, .operation _ a b =>
    (slotPlaces a.innerPlaces).map (Place.under .op1)
      ++ (slotPlaces b.innerPlaces).map (Place.under .op2)
  | _, .titleOf v => (slotPlaces v.innerPlaces).map (Place.under .titleVideo)
  | _, .randomFrom c => (slotPlaces c.innerPlaces).map (Place.under .collection)
  | _, .relatedTo v => (slotPlaces v.innerPlaces).map (Place.under .relatedVideo)

def Expr.places {f : Family} (e : Expr f) : List (Place (.slot f)) := slotPlaces e.innerPlaces

def Statement.places : Statement → List (Place .statement)
  | .get _ => []
  | .set _ value => value.places.map (Place.under .value)

/-- The places of the commands in order, and the gap behind them. -/
def Statement.listPlaces (ss : List Statement) : List (Place .commands) :=
  entryPlaces .command Statement.places 0 ss ++ [⟨.commands, .here⟩]

def CommandSequence.places (s : CommandSequence) : List (Place .sequence) :=
  (Statement.listPlaces s.commands).map (Place.under .commands)

def Scene.places : Scene → List (Place .scene)
  | .text s =>
    s.preCommands.places.map (Place.under .preCommands)
      ++ s.text.places.map (Place.under .text)
      ++ s.duration.places.map (Place.under .duration)
      ++ s.postCommands.places.map (Place.under .postCommands)
  | .video s =>
    s.preCommands.places.map (Place.under .preCommands)
      ++ s.source.places.map (Place.under .source)
      ++ s.duration.places.map (Place.under .duration)
      ++ s.offset.places.map (Place.under .offset)
      ++ s.postCommands.places.map (Place.under .postCommands)

/-- The places of the scenes in order, and the gap behind them. -/
def Scene.listPlaces (ss : List Scene) : List (Place .scenes) :=
  entryPlaces .scene Scene.places 0 ss ++ [⟨.scenes, .here⟩]

def Act.places (a : Act) : List (Place .act) :=
  (Scene.listPlaces a.scenes).map (Place.under .scenes)

mutual

theorem Node.places_model : ∀ {f : Family} (n : Node f), n.places = n.model.innerPlaces
  | _, .number _ _ | _, .text _ _ | _, .url _ _ => rfl
  | _, .operation o a b _ => by
    simp only [Node.places, Node.model, Expr.innerPlaces]
    rw [a.places_model, b.places_model]
    rfl
  | _, .title v _ | _, .related v _ => by
    simp only [Node.places, Node.model, Expr.innerPlaces]
    rw [v.places_model]
    rfl
  | _, .random c _ => by
    simp only [Node.places, Node.model, Expr.innerPlaces]
    rw [c.places_model]
    rfl

theorem Slot.places_model : ∀ {f : Family} (s : Slot f), s.places = s.model.places
  | _, .empty _ => rfl
  | _, .full _ node => by
    simp only [Slot.places, Slot.model]
    rw [node.places_model]
    rfl

end

theorem StatementNode.places_model : ∀ s : StatementNode, s.places = s.model.places
  | get _ _ => rfl
  | set _ value _ => by
    simp only [StatementNode.places, model, Statement.places]
    rw [value.places_model]

theorem entryPlaces_map {α β : Type} {a b : Site} {step : Nat → Step a b}
    {places : α → List (Place b)} {model : α → β} {modelPlaces : β → List (Place b)}
    (h : ∀ item, places item = modelPlaces (model item)) : ∀ (i : Nat) (items : List α),
    entryPlaces step places i items = entryPlaces step modelPlaces i (items.map model)
  | _, [] => rfl
  | i, item :: items => by
    simp only [entryPlaces, List.map_cons]
    rw [h item, entryPlaces_map h (i + 1) items]

theorem SequenceNode.places_model (s : SequenceNode) : s.places = s.model.places := by
  simp only [SequenceNode.places, commandPlaces, model, CommandSequence.places,
    Statement.listPlaces]
  rw [entryPlaces_map StatementNode.places_model]

theorem SceneNode.places_model : ∀ s : SceneNode, s.places = s.model.places
  | text f t => by
    simp only [SceneNode.places, model, Scene.places]
    rw [f.preCommands.places_model, f.postCommands.places_model, f.duration.places_model,
      t.places_model]
  | video f source offset => by
    simp only [SceneNode.places, model, Scene.places]
    rw [f.preCommands.places_model, f.postCommands.places_model, f.duration.places_model,
      source.places_model, offset.places_model]

/-- A tree numbers its targets as its script numbers its places. -/
theorem ActNode.places_model (a : ActNode) : a.places = a.model.places := by
  simp only [ActNode.places, scenePlaces, model, Act.places, Scene.listPlaces]
  rw [entryPlaces_map SceneNode.places_model]

end SceneScript
