import SceneScript.Proofs.Editor.Editing
import SceneScript.Proofs.Editor.Numbering

/-! Drops that commute. Two targets of which the second is not inside what the first holds can take
their components in either order; the number of the second is moved by what the first has gained. -/

namespace SceneScript

variable {a b c s : Site}

/-! ## Changes at a place -/

/-- The script with a change of what stands at the end of a path. -/
def Path.modify : {a b : Site} → Path a b → (b.Model → b.Model) → a.Model → a.Model
  | _, _, here, f, m => f m
  | _, _, step s rest, f, m =>
    match s.model? m with
    | some part => s.putModel (rest.modify f part) m
    | none => m

theorem Path.modify_eq (path : Path a b) (f : b.Model → b.Model) {m : a.Model} {old : b.Model}
    (h : path.model? m = some old) : path.modify f m = path.putModel (f old) m := by
  induction path with
  | here =>
    cases h
    rfl
  | step s rest ih =>
    obtain ⟨part, hpart, hrest⟩ := Option.bind_eq_some_iff.mp h
    simp only [modify, putModel, hpart]
    rw [ih f hrest]

theorem Path.isShown_modify (path : Path a b) {f : b.Model → b.Model}
    (hf : ∀ x, b.isShown (f x) = true) {m : a.Model} (h : a.isShown m = true) :
    a.isShown (path.modify f m) = true := by
  cases path with
  | here => exact hf m
  | step s rest =>
    simp only [modify]
    cases s.model? m with
    | none => exact h
    | some part => exact (s.isShown_putModel _ m).trans h

/-- Of a list, the change leaves the entries as they are and goes by none of them. -/
def Site.Extends (s : Site) (f : s.Model → s.Model) : Prop :=
  s.isList = true → ∀ {b : Site} (step : Step s b) {m : s.Model} {part : b.Model},
    step.model? m = some part →
      step.model? (f m) = some part ∧ ∀ x, f (step.putModel x m) = step.putModel x (f m)

/-- Changes at two places that leave each other alone can be made in either order. -/
theorem Path.Aside.modify_comm {path : Path a b} {other : Path a c} (h : path.Aside other)
    {f : b.Model → b.Model} {g : c.Model → c.Model} (hf : ∀ x, b.isShown (f x) = true)
    (hg : ∀ x, c.isShown (g x) = true) (hextends : c.Extends g) {m : a.Model} {old : b.Model}
    (hold : path.model? m = some old) :
    path.modify f (other.modify g m) = other.modify g (path.modify f m) := by
  induction h with
  | @fork _ _ _ _ _ s s' rest rest' hne =>
    obtain ⟨part, hpart, -⟩ := Option.bind_eq_some_iff.mp hold
    simp only [modify, hpart]
    rw [Step.model?_putModel_ne hne]
    cases hother : s'.model? m with
    | none => simp only [hpart]
    | some part' =>
      simp only
      rw [Step.model?_putModel_ne hne.symm, hpart]
      exact Step.putModel_comm hne ..
  | around s rest hlist =>
    obtain ⟨part, hpart, -⟩ := Option.bind_eq_some_iff.mp hold
    obtain ⟨hkeeps, hput⟩ := hextends hlist s hpart
    simp only [modify, hpart, hkeeps]
    exact (hput _).symm
  | @under _ _ _ _ s rest rest' hinner ih =>
    obtain ⟨part, hpart, hrest⟩ := Option.bind_eq_some_iff.mp hold
    have hshown := Step.isShown_model? hpart
    have hfirst := Step.model?_putModel hpart (rest.isShown_modify hf hshown)
    have hsecond := Step.model?_putModel hpart (rest'.isShown_modify hg hshown)
    simp only [modify, hpart, hfirst, hsecond]
    rw [Step.putModel_putModel, Step.putModel_putModel, ih hf hg hextends hrest]

/-! ## Changes by targets -/

/-- What a target makes of what it holds when it takes a component. -/
def Target.taken (c : Component) : (t : Target) → t.site.Model → t.site.Model
  | slot f, old => (c.expr? f).getD old
  | commands, ss => ss ++ c.statement?.toList
  | scenes, ss => ss ++ c.scene?.toList

theorem Target.Takes.eq_taken {t : Target} {c : Component} {old new : t.site.Model}
    (h : t.Takes c old new) : new = t.taken c old := by
  cases h with
  | slot old new hc =>
    cases hc
    simp [taken, Component.expr?]
  | command ss s hc | scene ss s hc =>
    cases hc
    rfl

theorem Target.extends_taken (t : Target) (c : Component) : t.site.Extends (t.taken c) := by
  intro hlist b step m part h
  cases t with
  | slot f => cases hlist
  | commands =>
    cases step with
    | command i =>
      obtain ⟨hi, -⟩ := List.getElem?_eq_some_iff.mp h
      exact ⟨(List.getElem?_append_left hi).trans h, fun x => (List.set_append_left _ _ hi).symm⟩
  | scenes =>
    cases step with
    | scene i =>
      obtain ⟨hi, -⟩ := List.getElem?_eq_some_iff.mp h
      exact ⟨(List.getElem?_append_left hi).trans h, fun x => (List.set_append_left _ _ hi).symm⟩

/-- The target takes the component, whatever it holds. -/
def Target.Fits (t : Target) (c : Component) : Prop := ∀ part : t.Part, ∃ e, t.accept part c = .ok e

/-- Whether a target takes a component is no matter of what it holds. -/
theorem Target.fits_of_accept {t : Target} {part : t.Part} {c : Component} {e : Edited t.Part}
    (h : t.accept part c = .ok e) : t.Fits c := by
  intro other
  cases t with
  | slot f =>
    simp only [accept, Slot.fillComponent] at h ⊢
    cases hc : c.expr? f with
    | none =>
      rw [hc] at h
      cases h
    | some new =>
      obtain ⟨filled, hfill, -⟩ := Slot.fill_eq_ok other new
      exact ⟨filled, hfill⟩
  | commands =>
    cases c with
    | statement s =>
      obtain ⟨entry, hentry, -⟩ := bind_eq_ok h
      exact ListEditor.append_eq_ok ⟨entry, hentry⟩ other
    | _ => cases h
  | scenes =>
    cases c with
    | scene s =>
      obtain ⟨entry, hentry, -⟩ := bind_eq_ok h
      exact ListEditor.append_eq_ok ⟨entry, hentry⟩ other
    | _ => cases h

/-! ## Sizes -/

/-- How many targets are in the tree of a component; a gap has no tree. -/
def Component.size (c : Component) : Nat :=
  match c.build with
  | .ok tree => (tree.site.targets tree.part).length
  | .error _ => 0

theorem Site.length_component {p : s.Part} {c : Component} (h : s.component? p = some c)
    (hcategory : s.category? = some c.category) : (s.places p).length = c.extent := by
  rw [Site.places_model]
  cases s with
  | node | statement | sequence | scene | act =>
    cases h
    rfl
  | slot | commands | scenes => cases hcategory

theorem Component.size_of_build {c : Component} {tree : AnyPart} (h : c.build = .ok tree) :
    c.size = c.extent := by
  obtain ⟨hmodel, hcategory⟩ := (built_of_construct (construct_of_build h).2).component?
  simp only [size, h]
  rw [Site.length_targets, Site.length_component hmodel hcategory]

theorem Component.extent_gap {c : Component} (h : c.isGap = true) : c.extent = 0 := by
  cases c with
  | expr e =>
    cases e with
    | gap => rfl
    | _ => cases h
  | statement s => cases s <;> cases h
  | scene s => cases s <;> cases h
  | sequence s => cases h
  | act a => cases h

theorem Component.build_of_construct {c : Component} {tree : AnyPart} (hgap : c.isGap = false)
    (h : c.construct = .ok tree) : ∃ tree, c.build = .ok tree :=
  ⟨tree, (Registry.build_of_shown c _ hgap).trans h⟩

/-- Whatever a target has taken is a gap or has a tree of its own. -/
theorem Target.builds_of_accept {t : Target} {part : t.Part} {c : Component} {e : Edited t.Part}
    (h : t.accept part c = .ok e) (hgap : c.isGap = false) : ∃ tree, c.build = .ok tree := by
  cases t with
  | slot f =>
    have hbuilds := Component.buildsWith hgap
    rw [(takes_accept _ h).of_slot] at hbuilds ⊢
    exact hbuilds
  | commands =>
    cases c with
    | statement s =>
      obtain ⟨node, hnode, -⟩ := bind_eq_ok h
      have hnew : StatementNode.new s = .ok node := (StatementNode.build_eq s).symm.trans hnode
      have hconstruct : (Component.statement s).construct = .ok ⟨.statement, node⟩ := by
        rw [Component.construct, hnew]
        rfl
      exact Component.build_of_construct hgap hconstruct
    | _ => cases h
  | scenes =>
    cases c with
    | scene s =>
      obtain ⟨node, hnode, -⟩ := bind_eq_ok h
      have hnew : SceneNode.new s = .ok node := (SceneNode.build_eq s).symm.trans hnode
      have hconstruct : (Component.scene s).construct = .ok ⟨.scene, node⟩ := by
        rw [Component.construct, hnew]
        rfl
      exact Component.build_of_construct hgap hconstruct
    | _ => cases h

theorem Target.size_of_accept {t : Target} {part : t.Part} {c : Component} {e : Edited t.Part}
    (h : t.accept part c = .ok e) : c.size = c.extent := by
  cases hgap : c.isGap with
  | true =>
    simp only [Component.size, Component.build_gap hgap]
    exact (Component.extent_gap hgap).symm
  | false =>
    obtain ⟨tree, htree⟩ := builds_of_accept h hgap
    exact Component.size_of_build htree

/-! ## Accepting by number -/

/-- The target with a number takes a component. -/
def Site.acceptAt (s : Site) (p : s.Part) (i : Nat) (c : Component) :
    Except EditorError (Edited s.Part) :=
  s.withTarget p i (.noSuchTarget i) fun t part => t.accept part c

/-- How many targets are inside what a target holds; a list's gap holds nothing. -/
def Target.inside : (t : Target) → t.Part → Nat
  | slot f, p =>
    match p.occupant? with
    | some node => ((Site.node f).targets node).length
    | none => 0
  | commands, _ => 0
  | scenes, _ => 0

theorem Target.inside_eq (t : Target) (part : t.Part) :
    t.inside part = (t.held (t.site.model part)).length := by
  cases t with
  | slot f =>
    cases part with
    | empty frame => rfl
    | full frame node =>
      refine ((Site.node f).length_targets node).trans ?_
      rw [Site.places_model]
      exact (List.length_map _).symm
  | commands | scenes => rfl

namespace Site

/-- How many targets are inside what the target with a number holds. -/
def inside (s : Site) (p : s.Part) (i : Nat) : Nat :=
  match s.target? p i with
  | some l => l.place.target.inside l.part
  | none => 0

/-- The target with the second number is inside what the first holds. -/
def InOccupant (s : Site) (p : s.Part) (i j : Nat) : Prop :=
  ∃ slot inner, (s.places p)[i]? = some slot ∧ (s.places p)[j]? = some inner ∧ slot.Holds inner

/-- A target that is there, in the script. -/
theorem target?_model {p : s.Part} {i : Nat} {l : s.Located} (h : s.target? p i = some l) :
    (s.modelPlaces (s.model p))[i]? = some l.place ∧
      l.place.path.model? (s.model p) = some (l.place.target.site.model l.part) := by
  obtain ⟨hplace, hpart⟩ := target?_eq_some h
  exact ⟨(congrArg (·[i]?) (s.places_model p)).symm.trans hplace, Path.model?_of_get? hpart⟩

theorem exists_target? {p : s.Part} {i : Nat} {place : Place s}
    (h : (s.places p)[i]? = some place) : ∃ part, s.target? p i = some ⟨place, part⟩ := by
  obtain ⟨part, hpart⟩ := s.places_there p place (List.mem_of_getElem? h)
  refine ⟨part, ?_⟩
  simp only [target?, h, hpart, Option.bind_eq_bind, Option.bind_some]

/-- The targets inside what a slot holds are the next in the listing, as many as there are. -/
theorem inOccupant_iff {p : s.Part} {i j : Nat} :
    s.InOccupant p i j ↔ i < j ∧ j ≤ i + s.inside p i := by
  cases hl : s.target? p i with
  | none =>
    simp only [inside, hl]
    constructor
    · rintro ⟨slot, inner, hslot, -, -⟩
      obtain ⟨part, hpart⟩ := exists_target? hslot
      rw [hl] at hpart
      cases hpart
    · omega
  | some l =>
    obtain ⟨hplace, hold⟩ := target?_model hl
    have hslot := (target?_eq_some hl).1
    simp only [inside, hl]
    rw [l.place.target.inside_eq, ← Place.holds_iff hplace hold j, ← s.places_model]
    constructor
    · rintro ⟨slot, inner, hslot', hinner, hholds⟩
      cases hslot.symm.trans hslot'
      exact ⟨inner, hinner, hholds⟩
    · rintro ⟨inner, hinner, hholds⟩
      exact ⟨l.place, inner, hslot, hinner, hholds⟩

/-- What a part comes to when one of its targets takes a component. -/
theorem model_accepted {p : s.Part} {i : Nat} {l : s.Located} {c : Component}
    {e : Edited l.place.target.Part} (hl : s.target? p i = some l)
    (h : l.place.target.accept l.part c = .ok e) :
    s.model (l.place.path.put e p) =
      l.place.path.modify (l.place.target.taken c) (s.model p) := by
  rw [Path.model_put _ _ (target?_eq_some hl).2, Path.modify_eq _ _ (target?_model hl).2,
    (l.place.target.takes_accept h).eq_taken]

theorem acceptAt_eq_ok {p : s.Part} {i : Nat} {c : Component} {e : Edited s.Part}
    (h : s.acceptAt p i c = .ok e) : ∃ l edited, s.target? p i = some l ∧
      l.place.target.accept l.part c = .ok edited ∧
      s.model e.part = l.place.path.modify (l.place.target.taken c) (s.model p) := by
  unfold acceptAt withTarget at h
  cases hl : s.target? p i with
  | none =>
    rw [hl] at h
    cases h
  | some l =>
    rw [hl] at h
    obtain ⟨edited, haccept, h⟩ := bind_eq_ok h
    cases h
    exact ⟨l, edited, rfl, haccept, model_accepted hl haccept⟩

/-- A target that takes a component wherever it stands takes it at its number. -/
theorem exists_acceptAt {p : s.Part} {i : Nat} {place : Place s} {c : Component}
    (hplace : (s.modelPlaces (s.model p))[i]? = some place) (hfits : place.target.Fits c) :
    ∃ e, s.acceptAt p i c = .ok e ∧
      s.model e.part = place.path.modify (place.target.taken c) (s.model p) := by
  obtain ⟨part, hl⟩ := exists_target? ((congrArg (·[i]?) (s.places_model p)).trans hplace)
  obtain ⟨edited, haccept⟩ := hfits part
  have h : s.acceptAt p i c = .ok ⟨place.path.put edited p, edited.origin⟩ := by
    simp only [acceptAt, withTarget, hl, haccept]
    rfl
  exact ⟨_, h, model_accepted hl haccept⟩

/-- The numbers of the other targets when one has taken a component. -/
theorem numbers_accepted {p : s.Part} {i : Nat} {l : s.Located} {c : Component}
    {e : Edited l.place.target.Part} (hl : s.target? p i = some l)
    (h : l.place.target.accept l.part c = .ok e) :
    (∀ j < i, (s.modelPlaces (l.place.path.modify (l.place.target.taken c) (s.model p)))[j]? =
      (s.modelPlaces (s.model p))[j]?) ∧
    ∀ j q, i + s.inside p i < j → (s.modelPlaces (s.model p))[j]? = some q →
      l.place.path.Aside q.path ∧ (s.modelPlaces (l.place.path.modify (l.place.target.taken c)
        (s.model p)))[j + c.size - s.inside p i]? = some q := by
  obtain ⟨hplace, hold⟩ := target?_model hl
  have htakes := l.place.target.takes_accept h
  have hinside : s.inside p i =
      (l.place.target.held (l.place.target.site.model l.part)).length := by
    simp only [inside, hl]
    exact l.place.target.inside_eq l.part
  rw [Path.modify_eq _ _ hold, ← htakes.eq_taken, hinside, Target.size_of_accept h]
  exact Place.numbers hplace hold htakes

/-- Targets with numbers `i < j` take their components in either order, with the same script as the
result, if the second is not inside what the first holds. Once the first has taken its component,
the second has another number: it is moved by as many targets as are in that component, less those
in what it took the place of. -/
theorem accepts_commute {p : s.Part} {i j : Nat} (hij : i < j) (hout : ¬ s.InOccupant p i j)
    {x y : Component} {e₁ e₂ : Edited s.Part} (h₁ : s.acceptAt p i x = .ok e₁)
    (h₂ : s.acceptAt p j y = .ok e₂) :
    ∃ k : Nat, (k : Int) = j + ((x.size : Int) - s.inside p i) ∧
      ∃ e e', s.acceptAt e₁.part k y = .ok e ∧ s.acceptAt e₂.part i x = .ok e' ∧
        s.model e.part = s.model e'.part := by
  obtain ⟨l, part, hl, haccept, hfirst⟩ := acceptAt_eq_ok h₁
  obtain ⟨l', part', hl', haccept', hsecond⟩ := acceptAt_eq_ok h₂
  obtain ⟨hplace, hold⟩ := target?_model hl
  obtain ⟨hplace', -⟩ := target?_model hl'
  have hbehind : i + s.inside p i < j := by
    rw [inOccupant_iff] at hout
    omega
  obtain ⟨haside, hmoved⟩ := (numbers_accepted hl haccept).2 j l'.place hbehind hplace'
  have hkept := ((numbers_accepted hl' haccept').1 i hij).trans hplace
  rw [← hfirst] at hmoved
  rw [← hsecond] at hkept
  obtain ⟨e, he, hmodel⟩ := exists_acceptAt hmoved (Target.fits_of_accept haccept')
  obtain ⟨e', he', hmodel'⟩ := exists_acceptAt hkept (Target.fits_of_accept haccept)
  refine ⟨_, by omega, e, e', he, he', ?_⟩
  rw [hmodel, hmodel', hfirst, hsecond]
  exact (haside.modify_comm (f := l.place.target.taken x) (g := l'.place.target.taken y)
    (fun _ => l.place.target.isShown_model _) (fun _ => l'.place.target.isShown_model _)
    (l'.place.target.extends_taken y) hold).symm

end Site

/-- A scene whose text is the title of a video that is still to come. -/
def sampleTitled : ActNode :=
  ⟨⟨[.text ⟨.new "a" "", .empty .new, ⟨⟨[], .new⟩⟩, ⟨⟨[], .new⟩⟩, 0⟩
    (.full .new (.title (.empty .new) 0))], .new⟩, 0⟩

/-- The text is the target with number 1, and the video of the title the one with number 2. When a
plain text takes the place of the title, the gap behind the scene is no longer number 5 but 4. -/
theorem sampleTitled_commutes :
    ¬ Site.act.InOccupant sampleTitled 1 5 ∧ Site.act.InOccupant sampleTitled 1 2 ∧
      ∃ e₁ e₂ e e', Site.act.acceptAt sampleTitled 1 (.expr (.text "b")) = .ok e₁ ∧
        Site.act.acceptAt sampleTitled 5 (.scene (sampleScene .gap)) = .ok e₂ ∧
        Site.act.acceptAt e₁.part 4 (.scene (sampleScene .gap)) = .ok e ∧
        Site.act.acceptAt e₂.part 1 (.expr (.text "b")) = .ok e' ∧
        Site.act.model e.part = Site.act.model e'.part := by
  have hinside : Site.act.inside sampleTitled 1 = 1 := rfl
  have hsize : (Component.expr (.text "b")).size = 0 := rfl
  have hout : ¬ Site.act.InOccupant sampleTitled 1 5 := by
    rw [Site.inOccupant_iff, hinside]
    omega
  obtain ⟨e₁, h₁⟩ : ∃ e, Site.act.acceptAt sampleTitled 1 (.expr (.text "b")) = .ok e :=
    ⟨_, rfl⟩
  obtain ⟨e₂, h₂⟩ : ∃ e, Site.act.acceptAt sampleTitled 5 (.scene (sampleScene .gap)) = .ok e :=
    ⟨_, rfl⟩
  obtain ⟨k, hk, e, e', he, he', hmodel⟩ :=
    Site.accepts_commute (show 1 < 5 by decide) hout h₁ h₂
  rw [hinside, hsize] at hk
  have hfour : k = 4 := by omega
  subst hfour
  refine ⟨hout, ?_, e₁, e₂, e, e', h₁, h₂, he, he', hmodel⟩
  rw [Site.inOccupant_iff, hinside]
  omega

end SceneScript
