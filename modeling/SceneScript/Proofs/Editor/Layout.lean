import SceneScript.Proofs.Editor.Commuting

/-! What the listing of the targets shows. But for the flags it is told by the script alone: the
places of the script in layout order, numbered from zero, a slot shown as full where an expression
stands. The places of what a slot holds come right behind the slot, and those of the entries of a
list right in front of its gap. -/

namespace SceneScript

/-- What a listing shows of a target, the flags aside. -/
structure Outline where
  index : Nat
  category : Category
  label : String
  full : Bool
deriving DecidableEq

def TargetInfo.outline (t : TargetInfo) : Outline := ⟨t.index, t.category, t.label, t.full⟩

/-- Whether something stands at a target in the script. A list's gap never shows anything. -/
def Target.isFilled : (t : Target) → t.site.Model → Bool
  | slot _, e => !e.isGap
  | commands, _ | scenes, _ => false

variable {a : Site}

/-- A place of a script as a listing shows it under a number. -/
def Place.outline (m : a.Model) (i : Nat) (place : Place a) : Outline where
  index := i
  category := place.target.category
  label := place.target.label
  full := (place.path.model? m).any place.target.isFilled

/-- The places of a script, numbered in layout order. -/
def Site.outlines (s : Site) (m : s.Model) : List Outline :=
  (s.modelPlaces m).mapIdx (Place.outline m)

/-! ## The listing of a script -/

/-- A slot is full where its expression is no gap. -/
theorem Target.isFull_eq : ∀ (t : Target) (part : t.Part),
    t.isFull part = t.isFilled (t.site.model part)
  | slot _, s => s.isFull_eq
  | commands, _ | scenes, _ => rfl

/-- The entry of a target is told by what stands at its place. -/
theorem Target.outline_info {p : a.Part} {place : Place a} {part : place.target.Part}
    (h : place.path.get? p = some part) (i : Nat) :
    (place.target.info i part).outline = place.outline (a.model p) i := by
  have hmodel : place.path.model? (a.model p) = some (place.target.site.model part) :=
    Path.model?_of_get? h
  simp only [Target.info, TargetInfo.outline, Place.outline, hmodel, Option.any_some,
    Target.isFull_eq]

/-- But for the flags, the targets of a part are listed as its script has them. -/
theorem Site.outline_targets (s : Site) (p : s.Part) :
    (s.targets p).map TargetInfo.outline = s.outlines (s.model p) := by
  refine List.ext_getElem? fun i => ?_
  rw [outlines, List.getElem?_map, List.getElem?_mapIdx, targets_getElem?, ← s.places_model p]
  cases hplace : (s.places p)[i]? with
  | none =>
    have hnone : s.target? p i = none := by
      simp only [target?, hplace, Option.bind_eq_bind, Option.bind_none]
    rw [hnone]
    rfl
  | some place =>
    obtain ⟨part, hl⟩ := exists_target? hplace
    rw [hl]
    exact congrArg some (Target.outline_info (target?_eq_some hl).2 i)

/-! ## Around a place -/

/-- The places of a script around one of them. -/
structure Place.Surrounded (place : Place a) (i : Nat) (m : a.Model) (old : place.target.site.Model)
    (front back : List (Place a)) : Prop where
  /-- Right in front are the places of all entries, if it is the gap of a list, and right behind
  those of what it holds, if it is a slot. -/
  places : a.modelPlaces m = front ++ (place.target.before old).map (Place.along place.path) ++
    place :: ((place.target.held old).map (Place.along place.path) ++ back)
  number : i = (front ++ (place.target.before old).map (Place.along place.path)).length
  /-- All others are outside. -/
  outside : ∀ inner, Place.along place.path inner ∉ front ++ back

theorem Place.exists_surrounded {m : a.Model} {place : Place a} {i : Nat}
    {old : place.target.site.Model} (hi : (a.modelPlaces m)[i]? = some place)
    (hold : place.path.model? m = some old) :
    ∃ front back, place.Surrounded i m old front back := by
  obtain ⟨front, back, hcut⟩ := Path.exists_cut hold
  exact ⟨front, back, hcut.places_eq hold, (hcut.around hold).number hi, hcut.along_not_mem⟩

/-- The gap for the next scene is the last place of a script. -/
theorem Act.getLast?_places (act : Act) :
    act.places.getLast? = some ⟨.scenes, .step .scenes .here⟩ := by
  simp only [places, Scene.listPlaces, List.map_append, List.map_singleton, List.getLast?_append,
    List.getLast?_singleton, Option.some_or]
  rfl

theorem Site.getLast?_outlines (act : Act) : (Site.act.outlines act).getLast? =
    some ⟨act.places.length - 1, .scene, Target.scenes.label, false⟩ := by
  have hlast : act.places[act.places.length - 1]? = some ⟨.scenes, .step .scenes .here⟩ :=
    List.getLast?_eq_getElem?.symm.trans act.getLast?_places
  rw [List.getLast?_eq_getElem?, outlines, List.length_mapIdx, List.getElem?_mapIdx]
  exact congrArg (Option.map _) hlast

/-! ## The listing -/

/-- The targets of a part are listed, but for the flags, as its script has its places in layout
order, so that
- parts with the same script have the same listing;
- a full slot is followed at once by the places of what it holds, and all places of the entries of a
  list are in front of its gap;
- the last target of a document is the gap for the next scene. -/
theorem Site.targets_told_by_model (s : Site) (p : s.Part) :
    (s.targets p).map TargetInfo.outline = s.outlines (s.model p) ∧
    (∀ q : s.Part, s.model q = s.model p →
      (s.targets q).map TargetInfo.outline = (s.targets p).map TargetInfo.outline) ∧
    (∀ (i : Nat) (place : Place s), (s.modelPlaces (s.model p))[i]? = some place →
      ∃ old front back, place.path.model? (s.model p) = some old ∧
        place.Surrounded i (s.model p) old front back) ∧
    ∀ d : Document, d.model.places.getLast? = some ⟨.scenes, .step .scenes .here⟩ ∧
      ∃ t, d.targets.getLast? = some t ∧
        t.outline = ⟨d.model.places.length - 1, .scene, Target.scenes.label, false⟩ := by
  refine ⟨s.outline_targets p, fun q hq => ?_, fun i place hplace => ?_, fun d => ⟨?_, ?_⟩⟩
  · rw [s.outline_targets, s.outline_targets, hq]
  · obtain ⟨part, hl⟩ := exists_target? ((congrArg (·[i]?) (s.places_model p)).trans hplace)
    have hold := (target?_model hl).2
    obtain ⟨front, back, hsurrounded⟩ := Place.exists_surrounded hplace hold
    exact ⟨_, front, back, hold, hsurrounded⟩
  · exact d.model.getLast?_places
  · have hlast := Site.getLast?_outlines d.model
    have hlisted : d.targets.map TargetInfo.outline = Site.act.outlines d.model :=
      Site.act.outline_targets d.root
    rw [← hlisted, List.getLast?_map] at hlast
    exact Option.map_eq_some_iff.mp hlast

/-- A scene with a title to be looked up, of a video that is not there yet. -/
example : (Site.act.outlines ⟨[sampleScene (.titleOf .gap)]⟩).map (fun t => (t.category, t.full)) =
    [(.statement, false), (.expr .text, true), (.expr .video, false), (.expr .number, false),
      (.statement, false), (.scene, false)] := by decide

end SceneScript
