import Mathlib.Data.List.FinRange
import Mathlib.Data.List.Indexes
import SceneScript.Editor.Session
import SceneScript.Proofs.Editor.Drop
import SceneScript.Proofs.Editor.Listing
import SceneScript.Proofs.Editor.Parts

/-! How the numbers of targets change. The places of a script are those in front of some part of
it, those in the part, and those behind it; another part put there has no influence on the outer
two. What stands behind a part is aside from it: it is reached another way, or it is the gap of a
list that the part is in. -/

namespace SceneScript

variable {a b c : Site}

/-! ## The places of a part's script -/

def Site.modelPlaces : (s : Site) → s.Model → List (Place s)
  | slot _, e => e.places
  | node _, e => e.innerPlaces
  | statement, s => s.places
  | commands, ss => Statement.listPlaces ss
  | sequence, s => s.places
  | scene, s => s.places
  | scenes, ss => Scene.listPlaces ss
  | act, a => a.places

/-- A part numbers its targets as its script numbers its places. -/
theorem Site.places_model : ∀ (s : Site) (p : s.Part), s.places p = s.modelPlaces (s.model p)
  | slot _, p => p.places_model
  | node _, p => p.places_model
  | statement, p => p.places_model
  | commands, p => by
    simp only [places, commandPlaces, modelPlaces, model, Statement.listPlaces]
    rw [entryPlaces_map StatementNode.places_model]
  | sequence, p => p.places_model
  | scene, p => p.places_model
  | scenes, p => by
    simp only [places, scenePlaces, modelPlaces, model, Scene.listPlaces]
    rw [entryPlaces_map SceneNode.places_model]
  | act, p => p.places_model

/-! ## Where a place is -/

/-- The step a way begins with. -/
def Path.first? : Path a b → Option (Σ b, Step a b)
  | here => none
  | step s _ => some ⟨_, s⟩

/-- A place inside the part at the end of a path. -/
def Place.along (path : Path a b) (inner : Place b) : Place a :=
  ⟨inner.target, path.append inner.path⟩

theorem Place.under_inj {s : Step a b} {x y : Place b} (h : x.under s = y.under s) : x = y := by
  obtain ⟨t, path⟩ := x
  obtain ⟨t', path'⟩ := y
  injection h with htarget hpath
  cases htarget
  injection eq_of_heq hpath with _ _ _ _ hrest
  exact congrArg (Place.mk t) hrest

theorem Place.along_inj {path : Path a b} {x y : Place b} (h : x.along path = y.along path) :
    x = y := by
  induction path with
  | here => exact h
  | step s rest ih => exact ih (Place.under_inj h)

theorem Place.along_here {t : Target} (path : Path a t.site) :
    Place.along path ⟨t, .here⟩ = ⟨t, path⟩ := congrArg (Place.mk t) path.append_here

theorem Place.along_ne {t : Target} {path : Path a t.site} {inner : Place t.site}
    (h : inner.path.first? ≠ none) : inner.along path ≠ ⟨t, path⟩ := by
  intro heq
  have hhere : inner = ⟨t, .here⟩ := along_inj (heq.trans (along_here path).symm)
  exact h (hhere ▸ rfl)

/-! ## Places that stand aside -/

def Site.isList : Site → Bool
  | commands | scenes => true
  | _ => false

/-- The second place stands aside from the first: the ways part at some step, or the second is a
list around the first, which grows behind it. -/
inductive Path.Aside : {a b c : Site} → Path a b → Path a c → Prop
  | fork {a b b' c c' : Site} {s : Step a b} {s' : Step a b'} (rest : Path b c) (rest' : Path b' c')
      (h : (⟨b, s⟩ : Σ b, Step a b) ≠ ⟨b', s'⟩) : Aside (step s rest) (step s' rest')
  | around {a b c : Site} (s : Step a b) (rest : Path b c) (h : a.isList = true) :
      Aside (step s rest) here
  | under {a b c c' : Site} (s : Step a b) {rest : Path b c} {rest' : Path b c'}
      (h : Aside rest rest') : Aside (step s rest) (step s rest')

theorem Path.not_aside_self (path : Path a b) : ¬ path.Aside path := by
  induction path with
  | here => exact nofun
  | step s rest ih =>
    intro h
    cases h with
    | fork _ _ hne => exact hne rfl
    | under _ h => exact ih h

/-! ## Blocks -/

/-- A part directly inside another. -/
structure Block (a : Site) where
  site : Site
  step : Step a site
  part : site.Model

namespace Block

def places (x : Block a) : List (Place a) :=
  (x.site.modelPlaces x.part).map (Place.under x.step)

/-- The step to the part. -/
def way (x : Block a) : Σ b, Step a b := ⟨x.site, x.step⟩

theorem first_of_mem {x : Block a} {place : Place a} (h : place ∈ x.places) :
    place.path.first? = some x.way := by
  obtain ⟨inner, -, rfl⟩ := List.mem_map.mp h
  rfl

theorem aside {x : Block a} {s : Step a b} (h : x.way ≠ ⟨b, s⟩) {place : Place a}
    (hplace : place ∈ x.places) (rest : Path b c) : (Path.step s rest).Aside place.path := by
  obtain ⟨inner, -, rfl⟩ := List.mem_map.mp hplace
  exact .fork rest inner.path h.symm

theorem first_flatMap {blocks : List (Block a)} {place : Place a}
    (h : place ∈ blocks.flatMap places) : place.path.first? ≠ none := by
  obtain ⟨x, -, h⟩ := List.mem_flatMap.mp h
  rw [first_of_mem h]
  exact nofun

end Block

namespace Site

/-- The parts directly inside, in layout order. -/
def blocks : (s : Site) → s.Model → List (Block s)
  | slot _, e => [⟨_, .occupant, e⟩]
  | node _, .operation _ x y => [⟨_, .op1, x⟩, ⟨_, .op2, y⟩]
  | node _, .titleOf v => [⟨_, .titleVideo, v⟩]
  | node _, .randomFrom e => [⟨_, .collection, e⟩]
  | node _, .relatedTo v => [⟨_, .relatedVideo, v⟩]
  | node _, .gap | node _, .number _ | node _, .text _ | node _, .url _ => []
  | statement, .get _ => []
  | statement, .set _ v => [⟨_, .value, v⟩]
  | commands, ss => ss.mapIdx fun i s => ⟨_, .command i, s⟩
  | sequence, s => [⟨_, .commands, s.commands⟩]
  | scene, .text s =>
    [⟨_, .preCommands, s.preCommands⟩, ⟨_, .text, s.text⟩, ⟨_, .duration, s.duration⟩,
      ⟨_, .postCommands, s.postCommands⟩]
  | scene, .video s =>
    [⟨_, .preCommands, s.preCommands⟩, ⟨_, .source, s.source⟩, ⟨_, .duration, s.duration⟩,
      ⟨_, .offset, s.offset⟩, ⟨_, .postCommands, s.postCommands⟩]
  | scenes, ss => ss.mapIdx fun i s => ⟨_, .scene i, s⟩
  | act, a => [⟨_, .scenes, a.scenes⟩]

/-- A slot comes before what it holds. -/
def front : (s : Site) → List (Place s)
  | slot f => [⟨.slot f, .here⟩]
  | _ => []

/-- A list's gap comes behind the entries. -/
def back : (s : Site) → List (Place s)
  | commands => [⟨.commands, .here⟩]
  | scenes => [⟨.scenes, .here⟩]
  | _ => []

end Site

theorem entryPlaces_blocks (step : Nat → Step a b) (i : Nat) (items : List b.Model) :
    entryPlaces step b.modelPlaces i items =
      (items.mapIdx fun j item => (⟨b, step (i + j), item⟩ : Block a)).flatMap Block.places := by
  induction items generalizing i with
  | nil => rfl
  | cons item items ih =>
    rw [entryPlaces, ih, List.mapIdx_cons, List.flatMap_cons]
    simp only [Nat.add_zero, Nat.add_assoc, Nat.add_comm 1]
    rfl

/-- A script's places are the part's own and those of the parts inside. -/
theorem Site.modelPlaces_eq (s : Site) (m : s.Model) :
    s.modelPlaces m = s.front ++ (s.blocks m).flatMap Block.places ++ s.back := by
  cases s with
  | slot f => simp [modelPlaces, front, blocks, back, Block.places, Expr.places, slotPlaces]
  | node f =>
    cases m <;> simp [modelPlaces, front, blocks, back, Block.places, Expr.places,
      Expr.innerPlaces]
  | statement =>
    cases m <;> simp [modelPlaces, front, blocks, back, Block.places, Statement.places]
  | commands =>
    have h := entryPlaces_blocks .command 0 m
    simp only [Nat.zero_add] at h
    exact congrArg (· ++ [⟨.commands, .here⟩]) h
  | sequence => simp [modelPlaces, front, blocks, back, Block.places, CommandSequence.places]
  | scene => cases m <;> simp [modelPlaces, front, blocks, back, Block.places, Scene.places]
  | scenes =>
    have h := entryPlaces_blocks .scene 0 m
    simp only [Nat.zero_add] at h
    exact congrArg (· ++ [⟨.scenes, .here⟩]) h
  | act => simp [modelPlaces, front, blocks, back, Block.places, Act.places]

theorem nodup_entries (step : Nat → Step a b)
    (hstep : ∀ i j, (⟨b, step i⟩ : Σ b, Step a b) = ⟨b, step j⟩ → i = j) (items : List b.Model) :
    ((items.mapIdx fun i item => (⟨b, step i, item⟩ : Block a)).map Block.way).Nodup := by
  rw [List.mapIdx_eq_ofFn, List.map_ofFn, List.nodup_ofFn]
  exact fun i j h => Fin.ext (hstep i j h)

/-- No two blocks are at the same step. -/
theorem Site.nodup_blocks (s : Site) (m : s.Model) : ((s.blocks m).map Block.way).Nodup := by
  cases s with
  | slot f | sequence | act => exact List.nodup_singleton _
  | node f | statement | scene => cases m <;> simp [blocks, Block.way]
  | commands => exact nodup_entries .command (by simp) m
  | scenes => exact nodup_entries .scene (by simp) m

/-- A step leads to a block, and something else put there is another block in its place. -/
theorem Step.blocks_putModel {s : Step a b} {m : a.Model} {old : b.Model}
    (h : s.model? m = some old) : ∃ n, (a.blocks m)[n]? = some ⟨b, s, old⟩ ∧
      ∀ part, a.blocks (s.putModel part m) = (a.blocks m).set n ⟨b, s, part⟩ := by
  -- One number for each step, that of its part in layout order; only what follows the extra parts
  -- of a video scene has two.
  cases s with
  | occupant =>
    obtain ⟨-, hold⟩ := Option.ite_none_left_eq_some.mp h
    cases hold
    exact ⟨0, rfl, fun _ => rfl⟩
  | op1 | titleVideo | collection | relatedVideo | value | commands | preCommands | scenes =>
    cases m <;> cases h
    all_goals exact ⟨0, rfl, fun _ => rfl⟩
  | op2 | text | source =>
    cases m <;> cases h
    exact ⟨1, rfl, fun _ => rfl⟩
  | duration =>
    cases m <;> cases h
    all_goals exact ⟨2, rfl, fun _ => rfl⟩
  | offset =>
    cases m <;> cases h
    exact ⟨3, rfl, fun _ => rfl⟩
  | postCommands =>
    cases m with
    | text t =>
      cases h
      exact ⟨3, rfl, fun _ => rfl⟩
    | video v =>
      cases h
      exact ⟨4, rfl, fun _ => rfl⟩
  | command i | scene i =>
    obtain ⟨hi, rfl⟩ := List.getElem?_eq_some_iff.mp h
    exact ⟨i, by simp [Site.blocks, hi], fun part => List.mapIdx_set⟩

/-- The blocks around one of them are all at other steps. -/
theorem Site.blocks_around {s : Site} {m : s.Model} {n : Nat} {y : Block s}
    (h : (s.blocks m)[n]? = some y) :
    (∀ x, (s.blocks m).set n x = (s.blocks m).take n ++ x :: (s.blocks m).drop (n + 1)) ∧
      ∀ x ∈ (s.blocks m).take n ++ (s.blocks m).drop (n + 1), x.way ≠ y.way := by
  obtain ⟨hlength, hget⟩ := List.getElem?_eq_some_iff.mp h
  have hset : ∀ x, (s.blocks m).set n x =
      (s.blocks m).take n ++ x :: (s.blocks m).drop (n + 1) := by
    intro x
    rw [List.set_eq_take_append_cons_drop, if_pos hlength]
  have hnodup := s.nodup_blocks m
  rw [← List.set_getElem_self hlength, hset, hget, List.map_append, List.map_cons,
    List.nodup_middle, List.nodup_cons, ← List.map_append] at hnodup
  exact ⟨hset, fun x hx heq => hnodup.1 (List.mem_map.mpr ⟨x, hx, heq⟩)⟩

/-! ## Cuts -/

/-- What stands at the end of a path, in the places of a script: whatever is put there, the places
in front of it and behind it are the same. None of those in front is inside it, and all of those
behind it stand aside from what is. -/
structure Path.Cut (path : Path a b) (m : a.Model) (before after : List (Place a)) : Prop where
  places : ∀ part : b.Model, a.modelPlaces (path.putModel part m) =
    before ++ (b.modelPlaces part).map (Place.along path) ++ after
  before_off : ∀ place ∈ before, ∀ inner, place ≠ Place.along path inner
  after_aside : ∀ place ∈ after, ∀ {c : Site} (rest : Path b c),
    (path.append rest).Aside place.path

theorem Site.first_front {s : Site} {place : Place s} (h : place ∈ s.front) :
    place.path.first? = none := by
  cases s with
  | slot f =>
    cases List.mem_singleton.mp h
    rfl
  | _ => cases h

theorem Site.aside_back {place : Place a} (h : place ∈ a.back) (s : Step a b) (rest : Path b c) :
    (Path.step s rest).Aside place.path := by
  cases a with
  | commands | scenes =>
    cases List.mem_singleton.mp h
    exact .around s rest rfl
  | _ => cases h

/-- Each part of a script is cut out of its places. -/
theorem Step.exists_cut {s : Step a b} {m : a.Model} {old : b.Model} (h : s.model? m = some old) :
    ∃ before after, (Path.step s .here).Cut m before after := by
  obtain ⟨n, hn, hblocks⟩ := Step.blocks_putModel h
  obtain ⟨hset, hoff⟩ := Site.blocks_around hn
  refine ⟨a.front ++ ((a.blocks m).take n).flatMap Block.places,
    ((a.blocks m).drop (n + 1)).flatMap Block.places ++ a.back, ?_, ?_, ?_⟩
  · intro part
    have hput : (Path.step s .here).putModel part m = s.putModel part m := by
      simp only [Path.putModel, h]
    rw [hput, Site.modelPlaces_eq, hblocks, hset, List.flatMap_append, List.flatMap_cons]
    simp only [List.append_assoc]
    rfl
  · intro place hplace inner heq
    have hfirst : place.path.first? = some ⟨b, s⟩ := heq ▸ rfl
    rcases List.mem_append.mp hplace with hplace | hplace
    · rw [Site.first_front hplace] at hfirst
      cases hfirst
    · obtain ⟨x, hx, hplace⟩ := List.mem_flatMap.mp hplace
      rw [Block.first_of_mem hplace] at hfirst
      exact hoff x (List.mem_append_left _ hx) (Option.some.inj hfirst)
  · intro place hplace c rest
    rcases List.mem_append.mp hplace with hplace | hplace
    · obtain ⟨x, hx, hplace⟩ := List.mem_flatMap.mp hplace
      exact Block.aside (hoff x (List.mem_append_right _ hx)) hplace rest
    · exact Site.aside_back hplace s rest

theorem Path.exists_cut {path : Path a b} {m : a.Model} {old : b.Model}
    (h : path.model? m = some old) : ∃ before after, path.Cut m before after := by
  -- The cut of the first step, with the cut of the rest inside its middle part.
  induction path with
  | here =>
    refine ⟨[], [], fun part => ?_, nofun, nofun⟩
    rw [List.nil_append, List.append_nil]
    exact (List.map_id _).symm
  | step s rest ih =>
    obtain ⟨part, hpart, hrest⟩ := Option.bind_eq_some_iff.mp h
    obtain ⟨before, after, houter⟩ := Step.exists_cut hpart
    obtain ⟨before', after', hinner⟩ := ih hrest
    refine ⟨before ++ before'.map (Place.under s), after'.map (Place.under s) ++ after, ?_, ?_, ?_⟩
    · intro new
      have hput : (step s rest).putModel new m =
          (step s .here).putModel (rest.putModel new part) m := by
        simp only [putModel, hpart]
      rw [hput, houter.places, hinner.places]
      simp only [List.map_append, List.map_map, List.append_assoc]
      rfl
    · intro place hplace inner heq
      rcases List.mem_append.mp hplace with hplace | hplace
      · exact houter.before_off place hplace (inner.along rest) heq
      · obtain ⟨outer, houter, rfl⟩ := List.mem_map.mp hplace
        exact hinner.before_off outer houter inner (Place.under_inj heq)
    · intro place hplace d rest'
      rcases List.mem_append.mp hplace with hplace | hplace
      · obtain ⟨outer, houter, rfl⟩ := List.mem_map.mp hplace
        exact .under s (hinner.after_aside outer houter rest')
      · exact houter.after_aside place hplace (rest.append rest')

/-! ## Targets in a script -/

/-- The first place is a slot, and the second is inside what it holds. -/
inductive Place.Holds {a : Site} : Place a → Place a → Prop
  | occupant {f : Family} (path : Path a (.slot f)) (inner : Place (.node f)) :
    Holds ⟨.slot f, path⟩ ((inner.under .occupant).along path)

namespace Target

/-- The places in front of a target, in the part that it is the target of. -/
def before : (t : Target) → t.site.Model → List (Place t.site)
  | slot _, _ => []
  | commands, ss => (Site.commands.blocks ss).flatMap Block.places
  | scenes, ss => (Site.scenes.blocks ss).flatMap Block.places

/-- The places inside what a target holds; a gap holds nothing. -/
def held : (t : Target) → t.site.Model → List (Place t.site)
  | slot _, e => e.innerPlaces.map (Place.under .occupant)
  | commands, _ => []
  | scenes, _ => []

theorem modelPlaces_eq (t : Target) (m : t.site.Model) :
    t.site.modelPlaces m = t.before m ++ ⟨t, .here⟩ :: t.held m := by
  cases t with
  | slot f => rfl
  | commands => exact Site.commands.modelPlaces_eq m
  | scenes => exact Site.scenes.modelPlaces_eq m

variable {t : Target} {m : t.site.Model} {q : Place t.site}

theorem first_before (hq : q ∈ t.before m) : q.path.first? ≠ none := by
  cases t with
  | slot f => cases hq
  | commands | scenes => exact Block.first_flatMap hq

theorem first_held (hq : q ∈ t.held m) : q.path.first? ≠ none := by
  cases t with
  | slot f =>
    obtain ⟨inner, -, rfl⟩ := List.mem_map.mp hq
    exact nofun
  | commands | scenes => cases hq

theorem not_holds_before (hq : q ∈ t.before m) : ¬ Place.Holds ⟨t, .here⟩ q := by
  intro hholds
  cases t with
  | slot f => cases hq
  | commands | scenes => cases hholds

theorem holds_held (hq : q ∈ t.held m) : Place.Holds ⟨t, .here⟩ q := by
  cases t with
  | slot f =>
    obtain ⟨inner, -, rfl⟩ := List.mem_map.mp hq
    exact .occupant .here inner
  | commands | scenes => cases hq

end Target

/-! ## Numbers around a target -/

namespace Place.Holds

theorem along {place inner : Place b} (h : place.Holds inner) (path : Path a b) :
    (place.along path).Holds (inner.along path) := by
  cases h with
  | occupant inner' place' =>
    have hassoc := Path.append_assoc path inner' (place'.under .occupant).path
    have hinner : Place.along path ((place'.under .occupant).along inner') =
        (place'.under .occupant).along (path.append inner') := congrArg (Place.mk _) hassoc.symm
    rw [hinner]
    exact .occupant (path.append inner') place'

theorem exists_along {t : Target} {path : Path a t.site} {place : Place a}
    (h : Place.Holds ⟨t, path⟩ place) :
    ∃ inner : Place t.site, Place.Holds ⟨t, .here⟩ inner ∧ place = inner.along path := by
  cases h with
  | occupant _ inner => exact ⟨inner.under .occupant, .occupant .here inner, rfl⟩

theorem first {t : Target} {inner : Place t.site} (h : Place.Holds ⟨t, .here⟩ inner) :
    inner.path.first? ≠ none := by
  cases h with
  | occupant => exact nofun

end Place.Holds

/-- The places of a script around one of them, which is there once. -/
structure Place.Around (place : Place a) (before held after places : List (Place a)) : Prop where
  places : places = before ++ place :: (held ++ after)
  once : place ∉ before ++ (held ++ after)
  holds : ∀ q ∈ held, place.Holds q
  not_holds : ∀ q ∈ before ++ place :: after, ¬ place.Holds q
  aside : ∀ q ∈ after, place.path.Aside q.path

namespace Path.Cut

variable {t : Target} {path : Path a t.site} {m : a.Model} {old : t.site.Model}
  {front back : List (Place a)} (hcut : path.Cut m front back)

include hcut

theorem places_eq (hold : path.model? m = some old) :
    a.modelPlaces m = front ++ (t.before old).map (Place.along path) ++
      ⟨t, path⟩ :: ((t.held old).map (Place.along path) ++ back) := by
  have hplaces := hcut.places old
  rw [path.putModel_self hold, t.modelPlaces_eq] at hplaces
  rw [hplaces, ← Place.along_here path]
  simp only [List.map_append, List.map_cons, List.append_assoc, List.cons_append]

theorem along_not_mem (inner : Place t.site) : inner.along path ∉ front ++ back := by
  intro hmem
  rcases List.mem_append.mp hmem with hmem | hmem
  · exact hcut.before_off _ hmem inner rfl
  · exact Path.not_aside_self _ (hcut.after_aside _ hmem inner.path)

theorem once : ⟨t, path⟩ ∉ front ++ (t.before old).map (Place.along path) ++
    ((t.held old).map (Place.along path) ++ back) := by
  have hself := hcut.along_not_mem ⟨t, .here⟩
  rw [Place.along_here] at hself
  intro hmem
  simp only [List.mem_append, List.mem_map] at hmem
  rcases hmem with (hmem | ⟨inner, hinner, heq⟩) | ⟨inner, hinner, heq⟩ | hmem
  · exact hself (List.mem_append_left _ hmem)
  · exact Place.along_ne (Target.first_before hinner) heq
  · exact Place.along_ne (Target.first_held hinner) heq
  · exact hself (List.mem_append_right _ hmem)

theorem not_holds : ∀ q ∈ front ++ (t.before old).map (Place.along path) ++ ⟨t, path⟩ :: back,
    ¬ Place.Holds ⟨t, path⟩ q := by
  intro q hq hholds
  obtain ⟨inner, hinner, rfl⟩ := hholds.exists_along
  have hcut' := hcut.along_not_mem inner
  simp only [List.mem_append, List.mem_map, List.mem_cons] at hq
  rcases hq with (hq | ⟨x, hx, heq⟩) | heq | hq
  · exact hcut' (List.mem_append_left _ hq)
  · exact Target.not_holds_before hx (Place.along_inj heq ▸ hinner)
  · exact Place.along_ne hinner.first heq
  · exact hcut' (List.mem_append_right _ hq)

theorem around (hold : path.model? m = some old) :
    Place.Around ⟨t, path⟩ (front ++ (t.before old).map (Place.along path))
      ((t.held old).map (Place.along path)) back (a.modelPlaces m) where
  places := hcut.places_eq hold
  once := hcut.once
  holds := by
    intro q hq
    obtain ⟨inner, hinner, rfl⟩ := List.mem_map.mp hq
    exact Place.along_here path ▸ (Target.holds_held hinner).along path
  not_holds := hcut.not_holds
  aside := by
    intro q hq
    have haside := hcut.after_aside q hq .here
    rwa [path.append_here] at haside

end Path.Cut

theorem eq_length_of_getElem? {α : Type} {x : α} {xs ys : List α} (h : x ∉ xs ++ ys) {i : Nat}
    (hi : (xs ++ x :: ys)[i]? = some x) : i = xs.length := by
  rcases Nat.lt_trichotomy i xs.length with hlt | heq | hgt
  · rw [List.getElem?_append_left hlt] at hi
    exact absurd (List.mem_append_left ys (List.mem_of_getElem? hi)) h
  · exact heq
  · obtain ⟨k, rfl⟩ := Nat.exists_eq_add_of_lt hgt
    rw [List.getElem?_append_right (by omega), Nat.add_assoc, Nat.add_sub_cancel_left,
      List.getElem?_cons_succ] at hi
    exact absurd (List.mem_append_right xs (List.mem_of_getElem? hi)) h

namespace Place.Around

variable {place : Place a} {before held after places : List (Place a)}
  (h : place.Around before held after places)

include h

theorem number {i : Nat} (hi : places[i]? = some place) : i = before.length := by
  rw [h.places] at hi
  exact eq_length_of_getElem? h.once hi

theorem behind {j : Nat} {q : Place a} (hj : before.length + held.length < j)
    (hq : places[j]? = some q) : after[j - (before.length + held.length + 1)]? = some q := by
  have hplaces : places = (before ++ place :: held) ++ after := by
    rw [h.places, List.append_assoc, List.cons_append]
  have hlength : (before ++ place :: held).length = before.length + held.length + 1 :=
    List.length_append
  rwa [hplaces, List.getElem?_append_right (by omega), hlength] at hq

/-- What a slot holds has the numbers next to its own. -/
theorem holds_iff (j : Nat) : (∃ q, places[j]? = some q ∧ place.Holds q) ↔
    before.length < j ∧ j ≤ before.length + held.length := by
  constructor
  · rintro ⟨q, hq, hholds⟩
    by_contra hrange
    refine h.not_holds q ?_ hholds
    rcases Nat.lt_trichotomy j before.length with hlt | rfl | hgt
    · rw [h.places, List.getElem?_append_left hlt] at hq
      exact List.mem_append_left _ (List.mem_of_getElem? hq)
    · rw [h.places, List.getElem?_append_right (Nat.le_refl _), Nat.sub_self] at hq
      cases hq
      exact List.mem_append_right _ (List.mem_cons_self ..)
    · have hafter := List.mem_of_getElem? (h.behind (by omega) hq)
      exact List.mem_append_right _ (List.mem_cons_of_mem _ hafter)
  · rintro ⟨hbehind, hinside⟩
    obtain ⟨k, rfl⟩ := Nat.exists_eq_add_of_lt hbehind
    have hk : k < held.length := by omega
    refine ⟨held[k], ?_, h.holds _ (List.getElem_mem hk)⟩
    rw [h.places, List.getElem?_append_right (by omega), Nat.add_assoc, Nat.add_sub_cancel_left,
      List.getElem?_cons_succ, List.getElem?_append_left hk, List.getElem?_eq_getElem hk]

end Place.Around

/-! ## Numbers after a drop -/

/-- How many places are in the tree of a component. -/
def Component.extent : Component → Nat
  | expr e => e.innerPlaces.length
  | statement s => s.places.length
  | scene s => s.places.length
  | sequence s => s.places.length
  | act a => a.places.length

/-- What a target makes of what it holds has the same places in front of the target, and then those
of the component. -/
theorem Target.Takes.renewed {t : Target} {c : Component} {old new : t.site.Model}
    (h : t.Takes c old new) : ∃ renewed, t.site.modelPlaces new = t.before old ++ renewed ∧
      renewed.length = c.extent + 1 := by
  cases h with
  | slot old new hc =>
    cases hc
    exact ⟨new.places, rfl, congrArg (· + 1) (List.length_map _)⟩
  | command ss s hc =>
    cases hc
    have hbefore : before .commands (ss ++ [s]) =
        before .commands ss ++ s.places.map (Place.under (.command ss.length)) := by
      simp [before, Site.blocks, List.mapIdx_append, Block.places, Site.modelPlaces]
    refine ⟨s.places.map (Place.under (.command ss.length)) ++ [⟨.commands, .here⟩], ?_, ?_⟩
    · rw [modelPlaces_eq .commands, hbefore, List.append_assoc]
      rfl
    · rw [List.length_append, List.length_map]
      rfl
  | scene ss s hc =>
    cases hc
    have hbefore : before .scenes (ss ++ [s]) =
        before .scenes ss ++ s.places.map (Place.under (.scene ss.length)) := by
      simp [before, Site.blocks, List.mapIdx_append, Block.places, Site.modelPlaces]
    refine ⟨s.places.map (Place.under (.scene ss.length)) ++ [⟨.scenes, .here⟩], ?_, ?_⟩
    · rw [modelPlaces_eq .scenes, hbefore, List.append_assoc]
      rfl
    · rw [List.length_append, List.length_map]
      rfl

namespace Place

variable {m : a.Model} {place : Place a} {i : Nat} {old : place.target.site.Model}
  (hi : (a.modelPlaces m)[i]? = some place) (hold : place.path.model? m = some old)

include hi hold

/-- The places inside what a target holds are those with the next numbers. -/
theorem holds_iff (j : Nat) : (∃ q, (a.modelPlaces m)[j]? = some q ∧ place.Holds q) ↔
    i < j ∧ j ≤ i + (place.target.held old).length := by
  obtain ⟨front, back, hcut⟩ := Path.exists_cut hold
  have haround := hcut.around hold
  rw [haround.holds_iff, ← haround.number hi, List.length_map]

/-- When a target takes a component, the places in front of it keep their numbers, and those behind
what it held have theirs moved by what has come less what has gone. -/
theorem numbers {c : Component} {new : place.target.site.Model}
    (htakes : place.target.Takes c old new) :
    (∀ j < i, (a.modelPlaces (place.path.putModel new m))[j]? = (a.modelPlaces m)[j]?) ∧
      ∀ j q, i + (place.target.held old).length < j → (a.modelPlaces m)[j]? = some q →
        place.path.Aside q.path ∧ (a.modelPlaces (place.path.putModel new m))[j + c.extent -
          (place.target.held old).length]? = some q := by
  obtain ⟨front, back, hcut⟩ := Path.exists_cut hold
  have haround := hcut.around hold
  have hnumber := haround.number hi
  obtain ⟨renewed, hnew, hlength⟩ := htakes.renewed
  have hplaces : a.modelPlaces (place.path.putModel new m) =
      (front ++ (place.target.before old).map (Place.along place.path)) ++
        (renewed.map (Place.along place.path) ++ back) := by
    rw [hcut.places, hnew]
    simp only [List.map_append, List.append_assoc]
  refine ⟨fun j hj => ?_, fun j q hj hq => ?_⟩
  · rw [hnumber] at hj
    rw [hplaces, haround.places, List.getElem?_append_left hj, List.getElem?_append_left hj]
  · have hbehind := haround.behind (by rwa [← hnumber, List.length_map]) hq
    rw [← hnumber, List.length_map] at hbehind
    refine ⟨haround.aside q (List.mem_of_getElem? hbehind), ?_⟩
    have hrenewed : (renewed.map (Place.along place.path)).length = c.extent + 1 :=
      (List.length_map _).trans hlength
    rw [hplaces, List.getElem?_append_right (by omega), ← hnumber,
      List.getElem?_append_right (by omega), hrenewed]
    have hmoved : j + c.extent - (place.target.held old).length - i - (c.extent + 1) =
        j - (i + (place.target.held old).length + 1) := by omega
    rw [hmoved]
    exact hbehind

end Place

end SceneScript
