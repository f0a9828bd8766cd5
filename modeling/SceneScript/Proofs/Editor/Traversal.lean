import SceneScript.Proofs.Editor.Failure
import SceneScript.Proofs.Editor.Numbering

/-! Going through the targets of a part. A traversal calls something for each target in layout
order; whatever that makes of a target is what the traversal goes on in, so that it may meet targets
which were not there when it began, and may never come to an end. One that leaves the targets alone
meets those of the listing, each once. -/

namespace SceneScript

variable {κ : Type} {a b : Site}

/-! ## Traversals -/

/-- What a call for a part leaves: what the caller keeps, the part, and the changes announced. -/
structure Visit (κ σ : Type) where
  kept : κ
  state : σ
  heard : List Origin

/-- What is called for each target, with what was kept from the targets before. -/
abbrev Visitor (κ : Type) := (t : Target) → κ → t.Part → Visit κ t.Part

namespace Site

/-- The parts inside a part that a traversal goes through, in layout order. -/
def inner : (s : Site) → s.Part → List (Σ b, Step s b)
  | slot _, .empty _ => []
  | slot _, .full _ _ => [⟨_, .occupant⟩]
  | node _, .number _ _ | node _, .text _ _ | node _, .url _ _ => []
  | node _, .operation _ _ _ _ => [⟨_, .op1⟩, ⟨_, .op2⟩]
  | node _, .title _ _ => [⟨_, .titleVideo⟩]
  | node _, .random _ _ => [⟨_, .collection⟩]
  | node _, .related _ _ => [⟨_, .relatedVideo⟩]
  | statement, .get _ _ => []
  | statement, .set _ _ _ => [⟨_, .value⟩]
  | commands, l => (List.range l.items.length).map fun i => ⟨_, .command i⟩
  | sequence, _ => [⟨_, .commands⟩]
  | scene, .text _ _ => [⟨_, .preCommands⟩, ⟨_, .text⟩, ⟨_, .duration⟩, ⟨_, .postCommands⟩]
  | scene, .video _ _ _ =>
    [⟨_, .preCommands⟩, ⟨_, .source⟩, ⟨_, .duration⟩, ⟨_, .offset⟩, ⟨_, .postCommands⟩]
  | scenes, l => (List.range l.items.length).map fun i => ⟨_, .scene i⟩
  | act, _ => [⟨_, .scenes⟩]

/-- A slot is visited before what it holds. -/
def enter (visit : Visitor κ) : (s : Site) → κ → s.Part → Visit κ s.Part
  | slot f, k, p => visit (.slot f) k p
  | _, k, p => ⟨k, p, []⟩

/-- A list is visited behind its entries. -/
def leave (visit : Visitor κ) : (s : Site) → κ → s.Part → Visit κ s.Part
  | commands, k, p => visit .commands k p
  | scenes, k, p => visit .scenes k p
  | _, k, p => ⟨k, p, []⟩

end Site

/-- The part with another one where a step leads, told of each change announced there. -/
def Step.tell (step : Step a b) (heard : List Origin) (q : b.Part) (p : a.Part) : a.Part :=
  heard.foldl (fun p o => a.announce (some o) p) (step.put q p)

/-- A part after another one was visited where a step leads. -/
def Visit.into (v : Visit κ a.Part) (step : Step a b) (w : Visit κ b.Part) : Visit κ a.Part :=
  ⟨w.kept, step.tell w.heard w.state v.state, v.heard ++ w.heard⟩

def Visit.andThen (v : Visit κ a.Part) (w : Visit κ a.Part) : Visit κ a.Part :=
  ⟨w.kept, w.state, v.heard ++ w.heard⟩

mutual

/-- What a traversal comes to. One that never ends comes to nothing. -/
inductive Site.Walks (visit : Visitor κ) : (s : Site) → κ → s.Part → Visit κ s.Part → Prop
  | intro {s : Site} {k : κ} {p : s.Part} {entered v : Visit κ s.Part}
      (he : s.enter visit k p = entered)
      (h : Site.Passes visit s (s.inner entered.state) entered v) :
      Site.Walks visit s k p (v.andThen (s.leave visit v.kept v.state))

/-- The parts inside are gone through one after the other, in what the one around has become. -/
inductive Site.Passes (visit : Visitor κ) :
    (s : Site) → List (Σ b, Step s b) → Visit κ s.Part → Visit κ s.Part → Prop
  | nil {s : Site} (v : Visit κ s.Part) : Site.Passes visit s [] v v
  | absent {s : Site} {x : Σ b, Step s b} {steps : List (Σ b, Step s b)} {v w : Visit κ s.Part}
      (hx : x.2.get? v.state = none) (h : Site.Passes visit s steps v w) :
      Site.Passes visit s (x :: steps) v w
  | into {s : Site} {x : Σ b, Step s b} {steps : List (Σ b, Step s b)} {v u : Visit κ s.Part}
      {q : x.1.Part} {w : Visit κ x.1.Part} (hx : x.2.get? v.state = some q)
      (hw : Site.Walks visit x.1 v.kept q w) (h : Site.Passes visit s steps (v.into x.2 w) u) :
      Site.Passes visit s (x :: steps) v u

end

section Unique

variable {visit : Visitor κ} {s : Site}

mutual

/-- A traversal that ends comes to one thing only. -/
theorem Site.Walks.unique {s : Site} {k : κ} {p : s.Part} {v v' : Visit κ s.Part} :
    s.Walks visit k p v → s.Walks visit k p v' → v = v'
  | .intro he h, .intro he' h' => by
    cases he.symm.trans he'
    rw [h.unique h']

theorem Site.Passes.unique {s : Site} {steps : List (Σ b, Step s b)} {v w w' : Visit κ s.Part} :
    Site.Passes visit s steps v w → Site.Passes visit s steps v w' → w = w'
  | .nil _, .nil _ => rfl
  | .absent _ h, .absent _ h' => h.unique h'
  | .absent hx _, .into hx' _ _ => nomatch hx.symm.trans hx'
  | .into hx _ _, .absent hx' _ => nomatch hx.symm.trans hx'
  | .into hx hw h, .into hx' hw' h' => by
    cases hx.symm.trans hx'
    cases hw.unique hw'
    exact h.unique h'

end

theorem Site.Passes.append {before behind : List (Σ b, Step s b)} {v w u : Visit κ s.Part}
    (h : Site.Passes visit s before v w) (h' : Site.Passes visit s behind w u) :
    Site.Passes visit s (before ++ behind) v u := by
  induction before generalizing v with
  | nil =>
    cases h
    exact h'
  | cons x before ih =>
    cases h with
    | absent hx h => exact .absent hx (ih h)
    | into hx hw h => exact .into hx hw (ih h)

end Unique

/-! ## Parts inside parts -/

section Induction

variable {P : (s : Site) → s.Part → Prop}
  (h : ∀ (s : Site) (p : s.Part),
    (∀ {b : Site} (step : Step s b) (q : b.Part), step.get? p = some q → P b q) → P s p)

include h

mutual

theorem Node.part_induction : ∀ {f : Family} (n : Node f), P (.node f) n
  | _, .number _ _ | _, .text _ _ | _, .url _ _ => h _ _ fun step _ hq => by cases step <;> cases hq
  | _, .operation _ x y _ => h _ _ fun step _ hq => by
    cases step <;> cases hq
    · exact x.part_induction
    · exact y.part_induction
  | _, .title v _ | _, .related v _ => h _ _ fun step _ hq => by
    cases step
    cases hq
    exact v.part_induction
  | _, .random c _ => h _ _ fun step _ hq => by
    cases step
    cases hq
    exact c.part_induction

theorem Slot.part_induction : ∀ {f : Family} (s : Slot f), P (.slot f) s
  | _, .empty _ => h _ _ fun step _ hq => by
    cases step
    cases hq
  | _, .full _ node => h _ _ fun step _ hq => by
    cases step
    cases hq
    exact node.part_induction

end

/-- What is true of a part if it is true of those inside it is true of all parts. -/
theorem Site.part_induction : ∀ (s : Site) (p : s.Part), P s p := by
  have hstatement (p : StatementNode) : P .statement p := h _ _ fun step q _ => by
    cases step
    exact Slot.part_induction h q
  have hcommands (p : ListEditor StatementNode) : P .commands p := h _ _ fun step q _ => by
    cases step
    exact hstatement q
  have hsequence (p : SequenceNode) : P .sequence p := h _ _ fun step q _ => by
    cases step
    exact hcommands q
  have hscene (p : SceneNode) : P .scene p := h _ _ fun step q _ => by
    cases step with
    | preCommands | postCommands => exact hsequence q
    | duration | text | source | offset => exact Slot.part_induction h q
  have hscenes (p : ListEditor SceneNode) : P .scenes p := h _ _ fun step q _ => by
    cases step
    exact hscene q
  intro s p
  cases s with
  | slot f => exact Slot.part_induction h p
  | node f => exact Node.part_induction h p
  | statement => exact hstatement p
  | commands => exact hcommands p
  | sequence => exact hsequence p
  | scene => exact hscene p
  | scenes => exact hscenes p
  | act =>
    refine h _ _ fun step q _ => ?_
    cases step
    exact hscenes q

end Induction

/-! ## Places in layout order -/

/-- The places of what stands where a step leads. -/
def Step.places (step : Step a b) (p : a.Part) : List (Place a) :=
  match step.get? p with
  | some q => (b.places q).map (Place.under step)
  | none => []

theorem entryPlaces_eq (step : Nat → Step a b) {p : a.Part} {items : List b.Part} {i : Nat}
    (h : ∀ j, (step (i + j)).get? p = items[j]?) : entryPlaces step b.places i items =
      (List.range' i items.length).flatMap fun j => (step j).places p := by
  induction items generalizing i with
  | nil => rfl
  | cons item items ih =>
    have hfirst : (step i).places p = (b.places item).map (Place.under (step i)) := by
      rw [Step.places, show (step i).get? p = some item from h 0]
    have hrest (j : Nat) : (step (i + 1 + j)).get? p = items[j]? := by
      rw [Nat.add_assoc, Nat.add_comm 1 j]
      exact h (j + 1)
    rw [entryPlaces, List.length_cons, List.range'_succ, List.flatMap_cons, hfirst, ih hrest]

/-- The entries of a list are parts inside it, in order. -/
theorem entryPlaces_inner (step : Nat → Step a b) {p : a.Part} {items : List b.Part}
    (h : ∀ j, (step j).get? p = items[j]?) : entryPlaces step b.places 0 items =
      ((List.range items.length).map fun i => (⟨b, step i⟩ : Σ b, Step a b)).flatMap
        fun x => x.2.places p := by
  rw [entryPlaces_eq step fun j => (h (0 + j)).trans (congrArg (items[·]?) (Nat.zero_add j)),
    List.flatMap_map, List.range_eq_range']

namespace Site

/-- A part's places are its own and those of the parts inside. -/
theorem places_eq (s : Site) (p : s.Part) :
    s.places p = s.front ++ ((s.inner p).flatMap fun x => x.2.places p) ++ s.back := by
  cases s with
  | slot f | node f | statement | sequence | act =>
    cases p <;> simp only [front, inner, back, List.flatMap_cons, List.flatMap_nil,
      List.append_nil, List.nil_append, List.cons_append] <;> rfl
  | scene =>
    cases p <;> simp only [front, inner, back, List.flatMap_cons, List.flatMap_nil,
      List.append_nil, List.nil_append, ← List.append_assoc] <;> rfl
  | commands =>
    exact congrArg (· ++ [⟨.commands, .here⟩]) (entryPlaces_inner .command fun _ => rfl)
  | scenes =>
    exact congrArg (· ++ [⟨.scenes, .here⟩]) (entryPlaces_inner .scene fun _ => rfl)

end Site

/-! ## Targets that are met -/

/-- A target, whatever part it is inside. -/
abbrev Met := Σ t : Target, t.Part

def Place.met? (p : a.Part) (place : Place a) : Option Met :=
  (place.path.get? p).map fun q => ⟨place.target, q⟩

/-- The targets of a part, in layout order. -/
def Site.met (s : Site) (p : s.Part) : List Met := (s.places p).filterMap (Place.met? p)

/-- The targets of what stands where a step leads. -/
def Step.met (step : Step a b) (p : a.Part) : List Met :=
  match step.get? p with
  | some q => b.met q
  | none => []

theorem Step.filterMap_places (step : Step a b) (p : a.Part) :
    (step.places p).filterMap (Place.met? p) = step.met p := by
  unfold places met
  cases hq : step.get? p with
  | none => rfl
  | some q =>
    refine List.filterMap_map.trans (List.filterMap_congr fun place _ => ?_)
    simp only [Function.comp_apply, Place.met?, Place.under, Path.get?, hq, Option.bind_some]

namespace Site

theorem met_eq (s : Site) (p : s.Part) : s.met p = s.front.filterMap (Place.met? p) ++
    ((s.inner p).flatMap fun x => x.2.met p) ++ s.back.filterMap (Place.met? p) := by
  rw [met, places_eq, List.filterMap_append, List.filterMap_append, List.filterMap_flatMap]
  simp only [Step.filterMap_places]

theorem length_met (s : Site) (p : s.Part) : (s.met p).length = (s.places p).length :=
  List.filterMap_length_eq_length.mpr fun place hplace => by
    obtain ⟨q, hq⟩ := s.places_there p place hplace
    simp only [Place.met?, hq, Option.map_some, Option.isSome_some]

end Site

/-! ## Targets that are left alone -/

/-- Where targets are still to come of which this is said, the next is left alone, and the same is
said of the others afterwards. -/
def Visitor.Spares (visit : Visitor κ) (K : List Met → κ → Prop) : Prop :=
  ∀ ⦃t : Target⦄ ⦃q : t.Part⦄ ⦃rest : List Met⦄ ⦃k : κ⦄, K (⟨t, q⟩ :: rest) k →
    ∃ k', K rest k' ∧ visit t k q = ⟨k', q, []⟩

section Spared

variable {visit : Visitor κ} {K : List Met → κ → Prop} {rest : List Met} {k : κ}

theorem Site.enter_spared (h : visit.Spares K) {s : Site} {p : s.Part} (rest : List Met)
    (hk : K (s.front.filterMap (Place.met? p) ++ rest) k) :
    ∃ k', K rest k' ∧ s.enter visit k p = ⟨k', p, []⟩ := by
  cases s with
  | slot f => exact h hk
  | _ => exact ⟨k, hk, rfl⟩

theorem Site.leave_spared (h : visit.Spares K) {s : Site} {p : s.Part} (rest : List Met)
    (hk : K (s.back.filterMap (Place.met? p) ++ rest) k) :
    ∃ k', K rest k' ∧ s.leave visit k p = ⟨k', p, []⟩ := by
  cases s with
  | commands | scenes => exact h hk
  | _ => exact ⟨k, hk, rfl⟩

theorem Visit.into_spared {p : a.Part} {q : b.Part} {step : Step a b} (hq : step.get? p = some q)
    (k k' : κ) (heard : List Origin) :
    (⟨k, p, heard⟩ : Visit κ a.Part).into step ⟨k', q, []⟩ = ⟨k', p, heard⟩ := by
  simp only [into, Step.tell, List.foldl_nil, Step.put_get? hq, List.append_nil]

variable (visit K) in
/-- Whatever is said of the targets that are to come, a traversal of the part leaves the part as it
is, and the same is said of those behind it. -/
def Site.Spared (s : Site) (p : s.Part) : Prop :=
  ∀ ⦃rest : List Met⦄ ⦃k : κ⦄, K (s.met p ++ rest) k →
    ∃ k', K rest k' ∧ s.Walks visit k p ⟨k', p, []⟩

/-- Parts that are left alone stay as they are, one after the other. -/
theorem Site.passes_spared {s : Site} {p : s.Part} {steps : List (Σ b, Step s b)}
    (hin : ∀ x ∈ steps, ∀ q, x.2.get? p = some q → x.1.Spared visit K q) (rest : List Met)
    (hk : K ((steps.flatMap fun x => x.2.met p) ++ rest) k) (heard : List Origin) :
    ∃ k', K rest k' ∧ Passes visit s steps ⟨k, p, heard⟩ ⟨k', p, heard⟩ := by
  induction steps generalizing k with
  | nil => exact ⟨k, hk, .nil _⟩
  | cons x steps ih =>
    obtain ⟨hx, hsteps⟩ := List.forall_mem_cons.mp hin
    rw [List.flatMap_cons, List.append_assoc, Step.met] at hk
    cases hq : x.2.get? p with
    | none =>
      rw [hq] at hk
      obtain ⟨k', hk', hpasses⟩ := ih hsteps hk
      exact ⟨k', hk', .absent hq hpasses⟩
    | some q =>
      rw [hq] at hk
      obtain ⟨k₁, hk₁, hwalks⟩ := hx q hq hk
      obtain ⟨k₂, hk₂, hpasses⟩ := ih hsteps hk₁
      rw [← Visit.into_spared hq k k₁ heard] at hpasses
      exact ⟨k₂, hk₂, .into hq hwalks hpasses⟩

/-- A part whose targets are all left alone stays as it is. -/
theorem Site.walks_spared (h : visit.Spares K) (s : Site) (p : s.Part) : s.Spared visit K p := by
  induction s, p using part_induction with
  | h s p ih =>
    intro rest k hk
    rw [met_eq, List.append_assoc, List.append_assoc] at hk
    obtain ⟨k₁, hk₁, henter⟩ := enter_spared h _ hk
    obtain ⟨k₂, hk₂, hpasses⟩ := passes_spared (fun x _ q hq => ih x.2 q hq) _ hk₁ []
    obtain ⟨k₃, hk₃, hleave⟩ := leave_spared h _ hk₂
    have hwalks := Walks.intro henter hpasses
    rw [hleave] at hwalks
    exact ⟨k₃, hk₃, hwalks⟩

end Spared

/-! ## The listing -/

/-- Lists the targets that are met, numbered from zero. -/
def collect : Visitor (List TargetInfo) := fun t listed part =>
  ⟨listed ++ [t.info listed.length part], part, []⟩

/-- The targets as a listing shows them, from a number on. -/
def listedFrom (i : Nat) (targets : List Met) : List TargetInfo :=
  (targets.zipIdx i).map fun ((⟨t, part⟩, j) : Met × Nat) => t.info j part

/-- Together with those still to come, the targets listed so far make up the whole listing. -/
theorem collect_spares (whole : List TargetInfo) :
    collect.Spares fun rest listed => listed ++ listedFrom listed.length rest = whole := by
  intro t q rest listed h
  refine ⟨listed ++ [t.info listed.length q], ?_, rfl⟩
  dsimp only at h ⊢
  rw [List.length_append, List.length_singleton, List.append_assoc]
  exact h

namespace Site

theorem met_getElem? (s : Site) (p : s.Part) (i : Nat) :
    (s.met p)[i]? = (s.target? p i).map fun l => ⟨l.place.target, l.part⟩ := by
  have hthere : ∀ place ∈ s.places p, ∃ m, place.met? p = some m := fun place hplace => by
    obtain ⟨q, hq⟩ := s.places_there p place hplace
    exact ⟨⟨place.target, q⟩, by rw [Place.met?, hq]; rfl⟩
  rw [met, filterMap_getElem? hthere]
  unfold target?
  cases (s.places p)[i]? with
  | none => rfl
  | some place =>
    simp only [Option.bind_some, Option.bind_eq_bind, Place.met?]
    cases place.path.get? p <;> rfl

/-- A traversal meets the targets of the listing, and leaves everything as it is if what is called
does. -/
theorem walks_collect (s : Site) (p : s.Part) :
    s.Walks collect [] p ⟨s.targets p, p, []⟩ := by
  have hlisting : [] ++ listedFrom 0 (s.met p ++ []) = s.targets p := by
    refine List.ext_getElem? fun i => ?_
    rw [List.nil_append, List.append_nil, listedFrom, List.getElem?_map, List.getElem?_zipIdx,
      Nat.zero_add, met_getElem?, targets_getElem?]
    cases s.target? p i <;> rfl
  obtain ⟨listed, hlisted, hwalks⟩ := walks_spared (collect_spares (s.targets p)) s p hlisting
  rw [listedFrom, List.zipIdx_nil, List.map_nil, List.append_nil] at hlisted
  rwa [hlisted] at hwalks

end Site

end SceneScript
