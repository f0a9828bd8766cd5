import SceneScript.Editor.Target

/-! The listing of targets. Every place of a part is there, so the listing leaves out none of them,
and its entry with a number is the target with that number. -/

namespace SceneScript

theorem filterMap_getElem? {α β : Type} {f : α → Option β} {xs : List α}
    (h : ∀ x ∈ xs, ∃ b, f x = some b) (i : Nat) : (xs.filterMap f)[i]? = xs[i]?.bind f := by
  induction xs generalizing i with
  | nil => rfl
  | cons x xs ih =>
    obtain ⟨⟨b, hb⟩, hrest⟩ := List.forall_mem_cons.mp h
    rw [List.filterMap_cons_some hb]
    cases i with
    | zero => exact hb.symm
    | succ i => exact ih hrest i

/-- The place leads to a part inside this one. -/
def Place.There {a : Site} (p : a.Part) (place : Place a) : Prop := ∃ q, place.path.get? p = some q

theorem Place.there_under {a b : Site} {s : Step a b} {p : a.Part} {q : b.Part}
    (hq : s.get? p = some q) {places : List (Place b)} (h : ∀ place ∈ places, place.There q) :
    ∀ place ∈ places.map (Place.under s), place.There p := by
  intro place hplace
  obtain ⟨inner, hinner, rfl⟩ := List.mem_map.mp hplace
  obtain ⟨part, hpart⟩ := h inner hinner
  refine ⟨part, ?_⟩
  change (s.get? p).bind inner.path.get? = some part
  rw [hq]
  exact hpart

theorem Place.there_here {t : Target} (p : t.Part) : Place.There p ⟨t, .here⟩ := ⟨p, rfl⟩

theorem entryPlaces_there {a b : Site} {step : Nat → Step a b} {places : b.Part → List (Place b)}
    {p : a.Part} {items : List b.Part} {i : Nat}
    (hitem : ∀ item ∈ items, ∀ place ∈ places item, place.There item)
    (hstep : ∀ j, (step (i + j)).get? p = items[j]?) :
    ∀ place ∈ entryPlaces step places i items, place.There p := by
  induction items generalizing i with
  | nil => exact nofun
  | cons item items ih =>
    obtain ⟨hfirst, hrest⟩ := List.forall_mem_cons.mp hitem
    refine List.forall_mem_append.mpr ⟨Place.there_under (hstep 0) hfirst, ih hrest fun j => ?_⟩
    have hnext := hstep (j + 1)
    rw [← Nat.add_assoc, Nat.add_right_comm] at hnext
    exact hnext

mutual

theorem Node.places_there : ∀ {f : Family} (n : Node f),
    ∀ place ∈ n.places, Place.There (a := .node f) n place
  | _, .number _ _ | _, .text _ _ | _, .url _ _ => nofun
  | _, .operation _ a b _ => List.forall_mem_append.mpr
    ⟨Place.there_under (a := .node .number) rfl a.places_there,
      Place.there_under (a := .node .number) rfl b.places_there⟩
  | _, .title v _ => Place.there_under (a := .node .text) rfl v.places_there
  | _, .random c _ => Place.there_under (a := .node .video) rfl c.places_there
  | _, .related v _ => Place.there_under (a := .node .collection) rfl v.places_there

theorem Slot.places_there : ∀ {f : Family} (s : Slot f),
    ∀ place ∈ s.places, Place.There (a := .slot f) s place
  | f, .empty frame =>
    List.forall_mem_singleton.mpr (Place.there_here (t := .slot f) (.empty frame))
  | f, .full frame node => List.forall_mem_cons.mpr
    ⟨Place.there_here (t := .slot f) (.full frame node),
      Place.there_under (a := .slot f) rfl node.places_there⟩

end

theorem StatementNode.places_there : ∀ (s : StatementNode),
    ∀ place ∈ s.places, Place.There (a := .statement) s place
  | get _ _ => nofun
  | set _ value _ => Place.there_under (a := .statement) rfl value.places_there

theorem commandPlaces_there (l : ListEditor StatementNode) :
    ∀ place ∈ commandPlaces l, Place.There (a := .commands) l place :=
  List.forall_mem_append.mpr
    ⟨entryPlaces_there (a := .commands) (b := .statement) (fun s _ => s.places_there)
        fun j => congrArg (l.items[·]?) (Nat.zero_add j),
      List.forall_mem_singleton.mpr (Place.there_here (t := .commands) l)⟩

theorem SequenceNode.places_there (s : SequenceNode) :
    ∀ place ∈ s.places, Place.There (a := .sequence) s place :=
  Place.there_under (a := .sequence) rfl (commandPlaces_there s.commands)

theorem SceneNode.places_there : ∀ (s : SceneNode),
    ∀ place ∈ s.places, Place.There (a := .scene) s place
  | text f t => by
    simp only [places, List.forall_mem_append]
    refine ⟨⟨⟨?_, ?_⟩, ?_⟩, ?_⟩
    · exact Place.there_under (a := .scene) rfl f.preCommands.places_there
    · exact Place.there_under (a := .scene) rfl t.places_there
    · exact Place.there_under (a := .scene) rfl f.duration.places_there
    · exact Place.there_under (a := .scene) rfl f.postCommands.places_there
  | video f source offset => by
    simp only [places, List.forall_mem_append]
    refine ⟨⟨⟨⟨?_, ?_⟩, ?_⟩, ?_⟩, ?_⟩
    · exact Place.there_under (a := .scene) rfl f.preCommands.places_there
    · exact Place.there_under (a := .scene) rfl source.places_there
    · exact Place.there_under (a := .scene) rfl f.duration.places_there
    · exact Place.there_under (a := .scene) rfl offset.places_there
    · exact Place.there_under (a := .scene) rfl f.postCommands.places_there

theorem scenePlaces_there (l : ListEditor SceneNode) :
    ∀ place ∈ scenePlaces l, Place.There (a := .scenes) l place :=
  List.forall_mem_append.mpr
    ⟨entryPlaces_there (a := .scenes) (b := .scene) (fun s _ => s.places_there)
        fun j => congrArg (l.items[·]?) (Nat.zero_add j),
      List.forall_mem_singleton.mpr (Place.there_here (t := .scenes) l)⟩

namespace Site

/-- Every place of a part is there. -/
theorem places_there : ∀ (s : Site) (p : s.Part), ∀ place ∈ s.places p, place.There p
  | slot _, p => p.places_there
  | node _, p => p.places_there
  | statement, p => p.places_there
  | commands, p => commandPlaces_there p
  | sequence, p => p.places_there
  | scene, p => p.places_there
  | scenes, p => scenePlaces_there p
  | act, p => Place.there_under (a := .act) rfl (scenePlaces_there p.scenes)

/-- The entry of the listing with a number shows the target with that number. -/
theorem targets_getElem? (s : Site) (p : s.Part) (i : Nat) :
    (s.targets p)[i]? = (s.target? p i).map fun l => l.place.target.info i l.part := by
  have hthere : ∀ x ∈ (s.places p).zipIdx,
      ∃ t, (x.1.path.get? p).map (x.1.target.info x.2) = some t := by
    intro x hx
    obtain ⟨q, hq⟩ := s.places_there p x.1 (List.fst_mem_of_mem_zipIdx hx)
    exact ⟨x.1.target.info x.2 q, by rw [hq]; rfl⟩
  unfold targets target?
  rw [filterMap_getElem? hthere, List.getElem?_zipIdx, Nat.zero_add]
  cases (s.places p)[i]? with
  | none => rfl
  | some place =>
    change (place.path.get? p).map (place.target.info i) =
      ((place.path.get? p).bind fun part => some ⟨place, part⟩).map fun l : s.Located =>
        l.place.target.info i l.part
    cases place.path.get? p <;> rfl

theorem length_targets (s : Site) (p : s.Part) : (s.targets p).length = (s.places p).length := by
  refine (List.filterMap_length_eq_length.mpr fun x hx => ?_).trans List.length_zipIdx
  obtain ⟨q, hq⟩ := s.places_there p x.1 (List.fst_mem_of_mem_zipIdx hx)
  simp only [hq, Option.map_some, Option.isSome_some]

end Site

end SceneScript
