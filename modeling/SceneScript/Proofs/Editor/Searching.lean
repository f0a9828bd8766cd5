import SceneScript.Proofs.Editor.Commuting
import SceneScript.Proofs.Editor.Revisions
import SceneScript.Proofs.Editor.Traversal

/-! Doing something with the target that has a number. It is looked for on a traversal that goes on
to the end: through whatever the target has been filled with, and past all that stands behind it.
The numbers that are counted from then on are no longer those of the listing. -/

namespace SceneScript

variable {ω ρ ε α : Type} {a b : Site}

/-- What is to be done with a target. It may leave anything there, and announce any changes; the
world is whatever else it reads and writes. -/
abbrev Job (ω ρ : Type) := (t : Target) → ω → t.Part → Visit (ρ × ω) t.Part

/-- A search under way. The job is there until it is taken. -/
structure Search (ω ρ : Type) where
  position : Nat
  job : Option (Job ω ρ)
  result : Option ρ
  world : ω

namespace Search

/-- Takes the job where its number is reached, and goes on counting. -/
def visit (i : Nat) : Visitor (Search ω ρ) := fun t k part =>
  match k.position == i, k.job with
  | true, some job =>
    let done := job t k.world part
    ⟨⟨k.position + 1, none, some done.kept.1, done.kept.2⟩, done.state, done.heard⟩
  | _, _ => ⟨{ k with position := k.position + 1 }, part, []⟩

end Search

/-- What a search has come to when the traversal is at its end. -/
def Search.outcome {σ : Type} (i : Nat) (v : Visit (Search ω ρ) σ) : ω × Left EditorError σ ρ :=
  (v.kept.world, ⟨v.kept.result.elim (.error (.noSuchTarget i)) .ok, v.state, v.heard⟩)

/-- What comes of doing a job on the target with a number. -/
def Site.Searches (s : Site) (i : Nat) (job : Job ω ρ) (world : ω) (p : s.Part)
    (o : ω × Left EditorError s.Part ρ) : Prop :=
  ∃ v, s.Walks (Search.visit i) ⟨0, some job, none, world⟩ p v ∧ Search.outcome i v = o

theorem Site.searches_iff {s : Site} {i : Nat} {job : Job ω ρ} {world : ω} {p : s.Part}
    {v : Visit (Search ω ρ) s.Part}
    (h : s.Walks (Search.visit i) ⟨0, some job, none, world⟩ p v)
    (o : ω × Left EditorError s.Part ρ) :
    s.Searches i job world p o ↔ o = Search.outcome i v := by
  constructor
  · rintro ⟨v', hv', rfl⟩
    rw [hv'.unique h]
  · rintro rfl
    exact ⟨v, h, rfl⟩

/-! ## Before and after -/

namespace Search

variable {i : Nat} {job : Job ω ρ} {world : ω} {k : Search ω ρ}

/-- The job is still to be done, with a number of targets in front. -/
def Waits (i : Nat) (job : Job ω ρ) (world : ω) (n : Nat) (k : Search ω ρ) : Prop :=
  ∃ position, position + n = i ∧ k = ⟨position, some job, none, world⟩

/-- The job is done. -/
def Over (done : ρ × ω) (k : Search ω ρ) : Prop :=
  ∃ position, k = ⟨position, none, some done.1, done.2⟩

theorem visit_here (h : k.Waits i job world 0) (t : Target) (part : t.Part) :
    ∃ k', k'.Over (job t world part).kept ∧
      visit i t k part = ⟨k', (job t world part).state, (job t world part).heard⟩ := by
  obtain ⟨position, rfl, rfl⟩ := h
  refine ⟨_, ⟨position + 1, rfl⟩, ?_⟩
  simp only [visit, Nat.add_zero, beq_self_eq_true]

/-- The targets in front are left alone. -/
theorem waits_spares (i : Nat) (job : Job ω ρ) (world : ω) (n : Nat) :
    (visit i).Spares fun rest k => k.Waits i job world (rest.length + n) := by
  rintro t part rest k ⟨position, hposition, rfl⟩
  rw [List.length_cons] at hposition
  have hbefore : (position == i) = false := beq_eq_false_iff_ne.mpr (by omega)
  exact ⟨_, ⟨position + 1, by omega, rfl⟩, by simp only [visit, hbefore]⟩

/-- So are all targets after the job is done, those that came with it among them. -/
theorem over_spares (i : Nat) (done : ρ × ω) : (visit i).Spares fun _ k => k.Over done := by
  rintro t part - k ⟨position, rfl⟩
  refine ⟨_, ⟨position + 1, rfl⟩, ?_⟩
  unfold visit
  cases position == i <;> rfl

end Search

/-! ## The part around -/

/-- The part with another one at the end of a path, where every part on the way is told of each
change announced there. -/
def Path.tell : {a b : Site} → Path a b → List Origin → b.Part → a.Part → a.Part
  | _, _, here, _, q, _ => q
  | _, _, step s rest, heard, q, p =>
    match s.get? p with
    | some inner => s.tell heard (rest.tell heard q inner) p
    | none => p

theorem Path.tell_toList (path : Path a b) (e : Edited b.Part) (p : a.Part) :
    path.tell e.origin.toList e.part p = path.put e p := by
  induction path with
  | here => rfl
  | @step a _ _ s rest ih =>
    unfold tell put
    cases s.get? p with
    | none => rfl
    | some inner =>
      dsimp only
      rw [ih]
      cases e.origin with
      | none => exact (a.announce_none _).symm
      | some o => rfl

theorem Step.get?_tell {step : Step a b} {p : a.Part} {old : b.Part} (h : step.get? p = some old)
    (heard : List Origin) (q : b.Part) : step.get? (step.tell heard q p) = some q := by
  have htold (p' : a.Part) :
      step.get? (heard.foldl (fun p o => a.announce (some o) p) p') = step.get? p' := by
    induction heard generalizing p' with
    | nil => rfl
    | cons o heard ih => rw [List.foldl_cons, ih, Step.get?_announce]
  exact (htold _).trans (Step.get?_put h q)

theorem Path.get?_tell {path : Path a b} {p : a.Part} {old : b.Part} (h : path.get? p = some old)
    (heard : List Origin) (q : b.Part) : path.get? (path.tell heard q p) = some q := by
  induction path with
  | here => rfl
  | step s rest ih =>
    obtain ⟨inner, hinner, hrest⟩ := Option.bind_eq_some_iff.mp h
    simp only [tell, get?, hinner, Step.get?_tell hinner, Option.bind_some]
    exact ih hrest q

/-- The part around one that was called for, and what the caller keeps by then. -/
def Visit.around {κ κ' : Type} (done : Visit κ b.Part) (path : Path a b) (p : a.Part) (k : κ') :
    Visit κ' a.Part :=
  ⟨k, path.tell done.heard done.state p, done.heard⟩

theorem Visit.into_around {κ κ' : Type} {step : Step a b} {c : Site} {path : Path b c} {p : a.Part}
    {q : b.Part} (hq : step.get? p = some q) (done : Visit κ c.Part) (k k' k'' : κ') :
    { Visit.into ⟨k, p, []⟩ step (done.around path q k') with kept := k'' } =
      done.around (.step step path) p k'' := by
  simp only [into, around, Path.tell, hq, List.nil_append]

/-! ## In front of the target and behind it -/

/-- An entry of a concatenation is an entry of one of the lists. -/
theorem exists_of_getElem?_flatMap {α β : Type} {f : α → List β} {xs : List α} {n : Nat} {y : β}
    (h : (xs.flatMap f)[n]? = some y) : ∃ before x behind m, xs = before ++ x :: behind ∧
      n = (before.flatMap f).length + m ∧ (f x)[m]? = some y := by
  induction xs generalizing n with
  | nil => cases h
  | cons x xs ih =>
    rw [List.flatMap_cons] at h
    by_cases hn : n < (f x).length
    · rw [List.getElem?_append_left hn] at h
      exact ⟨[], x, xs, n, rfl, (Nat.zero_add n).symm, h⟩
    · have hle := Nat.le_of_not_lt hn
      rw [List.getElem?_append_right hle] at h
      obtain ⟨before, x', behind, m, rfl, hm, h⟩ := ih h
      refine ⟨x :: before, x', behind, m, rfl, ?_, h⟩
      rw [List.flatMap_cons, List.length_append]
      omega

theorem Step.length_met (step : Step a b) (p : a.Part) :
    (step.met p).length = (step.places p).length := by
  unfold met places
  cases step.get? p with
  | none => rfl
  | some q =>
    dsimp only
    rw [b.length_met, List.length_map]

theorem Site.length_front_met (s : Site) (p : s.Part) :
    (s.front.filterMap (Place.met? p)).length = s.front.length := by
  cases s <;> rfl

namespace Site

variable {s : Site} {p : s.Part} {i n : Nat} {job : Job ω ρ} {world : ω} {done : ρ × ω}
  {k : Search ω ρ}

theorem enter_waits (hk : k.Waits i job world (s.front.length + n)) :
    ∃ k', k'.Waits i job world n ∧ s.enter (Search.visit i) k p = ⟨k', p, []⟩ := by
  rw [← s.length_front_met p, ← List.append_nil (s.front.filterMap _)] at hk
  obtain ⟨k', hk', henter⟩ := enter_spared (Search.waits_spares i job world n) [] hk
  rw [List.length_nil, Nat.zero_add] at hk'
  exact ⟨k', hk', henter⟩

/-- Parts are left alone if all their targets are in front of the one that the job is for. -/
theorem passes_waits {steps : List (Σ b, Step s b)}
    (hk : k.Waits i job world ((steps.flatMap fun x => x.2.places p).length + n)) :
    ∃ k', k'.Waits i job world n ∧ Passes (Search.visit i) s steps ⟨k, p, []⟩ ⟨k', p, []⟩ := by
  have hlength : (steps.flatMap fun x => x.2.met p).length =
      (steps.flatMap fun x => x.2.places p).length := by
    simp only [List.length_flatMap, Step.length_met]
  rw [← hlength, ← List.append_nil (steps.flatMap _)] at hk
  obtain ⟨k', hk', hpasses⟩ := passes_spared
    (K := fun rest (k : Search ω ρ) => k.Waits i job world (rest.length + n))
    (fun x _ q _ => walks_spared (Search.waits_spares i job world n) x.1 q) [] hk []
  rw [List.length_nil, Nat.zero_add] at hk'
  exact ⟨k', hk', hpasses⟩

/-- Once the job is done, the parts that are still to come are left alone, whatever they are. -/
theorem passes_over {v : Visit (Search ω ρ) s.Part} (hv : v.kept.Over done) (i : Nat)
    (steps : List (Σ b, Step s b)) :
    ∃ k', k'.Over done ∧ Passes (Search.visit i) s steps v { v with kept := k' } :=
  passes_spared (K := fun _ (k : Search ω ρ) => k.Over done)
    (fun x _ q _ => walks_spared (Search.over_spares i done) x.1 q) [] hv v.heard

/-- So is the gap behind them. -/
theorem walks_over {entered v : Visit (Search ω ρ) s.Part} (hv : v.kept.Over done)
    (he : s.enter (Search.visit i) k p = entered)
    (h : Passes (Search.visit i) s (s.inner entered.state) entered v) :
    ∃ k', k'.Over done ∧ s.Walks (Search.visit i) k p { v with kept := k' } := by
  obtain ⟨k', hk', hleave⟩ := leave_spared (p := v.state) (Search.over_spares i done) [] hv
  have hwalks := Walks.intro he h
  rw [hleave, Visit.andThen, List.append_nil] at hwalks
  exact ⟨k', hk', hwalks⟩

end Site

/-! ## The target that is found -/

section Found

variable (i : Nat) (job : Job ω ρ) (world : ω)

/-- Whichever target of a part the job waits for, a traversal does it there and nothing else. -/
def Site.Finds (s : Site) (p : s.Part) : Prop :=
  ∀ ⦃n : Nat⦄ ⦃place : Place s⦄ ⦃part : place.target.Part⦄ ⦃k : Search ω ρ⦄,
    (s.places p)[n]? = some place → place.path.get? p = some part → k.Waits i job world n →
      ∃ k', k'.Over (job place.target world part).kept ∧
        s.Walks (Search.visit i) k p ((job place.target world part).around place.path p k')

variable {i job world} {s : Site} {p : s.Part} {n : Nat} {place : Place s}
  {part : place.target.Part} {k : Search ω ρ}

/-- Of the parts inside, those in front of the target are gone through with the job waiting, and
those behind it with the job done. -/
theorem Site.passes_found {steps : List (Σ b, Step s b)}
    (hin : ∀ x ∈ steps, ∀ q, x.2.get? p = some q → x.1.Finds i job world q)
    (hplace : (steps.flatMap fun x => x.2.places p)[n]? = some place)
    (hpart : place.path.get? p = some part) (hk : k.Waits i job world n) :
    ∃ k', k'.Over (job place.target world part).kept ∧ Passes (Search.visit i) s steps
      ⟨k, p, []⟩ ((job place.target world part).around place.path p k') := by
  obtain ⟨before, x, behind, m, rfl, rfl, hinner⟩ := exists_of_getElem?_flatMap hplace
  obtain ⟨k₁, hk₁, hbefore⟩ := passes_waits (p := p) hk
  rw [Step.places] at hinner
  cases hq : x.2.get? p with
  | none =>
    rw [hq] at hinner
    cases hinner
  | some q =>
    rw [hq] at hinner
    dsimp only at hinner
    rw [List.getElem?_map] at hinner
    obtain ⟨inner, hplace', rfl⟩ := Option.map_eq_some_iff.mp hinner
    have hpart' : inner.path.get? q = some part := by
      simpa only [Place.under, Path.get?, hq, Option.bind_some] using hpart
    obtain ⟨k₂, hk₂, hwalks⟩ :=
      hin x (List.mem_append_right before List.mem_cons_self) q hq hplace' hpart' hk₁
    obtain ⟨k₃, hk₃, hbehind⟩ := passes_over
      (v := Visit.into ⟨k₁, p, []⟩ x.2 ((job inner.target world part).around inner.path q k₂))
      hk₂ i behind
    have hpasses := hbefore.append (.into hq hwalks hbehind)
    rw [Visit.into_around hq] at hpasses
    exact ⟨k₃, hk₃, hpasses⟩

theorem Site.enter_found (hplace : s.front[n]? = some place) (hpart : place.path.get? p = some part)
    (hk : k.Waits i job world n) :
    ∃ k', k'.Over (job place.target world part).kept ∧
      s.enter (Search.visit i) k p = (job place.target world part).around place.path p k' := by
  cases s with
  | slot f =>
    cases n with
    | zero =>
      cases hplace
      cases hpart
      exact Search.visit_here hk (.slot f) p
    | succ n => cases hplace
  | _ => cases hplace

theorem Site.leave_found (hplace : s.back[n]? = some place) (hpart : place.path.get? p = some part)
    (hk : k.Waits i job world n) :
    ∃ k', k'.Over (job place.target world part).kept ∧
      s.leave (Search.visit i) k p = (job place.target world part).around place.path p k' := by
  cases s with
  | commands | scenes =>
    cases n with
    | zero =>
      cases hplace
      cases hpart
      exact Search.visit_here hk _ _
    | succ n => cases hplace
  | _ => cases hplace

/-- Whichever target of a part the job waits for, a traversal does it there. -/
theorem Site.walks_found (i : Nat) (job : Job ω ρ) (world : ω) (s : Site) (p : s.Part) :
    s.Finds i job world p := by
  induction s, p using part_induction with
  | h s p ih =>
    intro n place part k hplace hpart hk
    rw [places_eq, List.append_assoc] at hplace
    by_cases hfront : n < s.front.length
    · rw [List.getElem?_append_left hfront] at hplace
      obtain ⟨k₁, hk₁, henter⟩ := enter_found hplace hpart hk
      -- what is inside now is what the job has left there
      obtain ⟨k₂, hk₂, hpasses⟩ := passes_over
        (v := (job place.target world part).around place.path p k₁) hk₁ i (s.inner _)
      exact walks_over (v := ⟨k₂, _, _⟩) hk₂ henter hpasses
    have hle := Nat.le_of_not_lt hfront
    rw [List.getElem?_append_right hle] at hplace
    rw [← Nat.add_sub_cancel' hle] at hk
    obtain ⟨k₁, hk₁, henter⟩ := enter_waits (p := p) hk
    by_cases hinner : n - s.front.length < ((s.inner p).flatMap fun x => x.2.places p).length
    · rw [List.getElem?_append_left hinner] at hplace
      obtain ⟨k₂, hk₂, hpasses⟩ := passes_found (fun x _ q hq => ih x.2 q hq) hplace hpart hk₁
      exact walks_over hk₂ henter hpasses
    · have hle := Nat.le_of_not_lt hinner
      rw [List.getElem?_append_right hle] at hplace
      rw [← Nat.add_sub_cancel' hle] at hk₁
      obtain ⟨k₂, hk₂, hpasses⟩ := passes_waits hk₁
      obtain ⟨k₃, hk₃, hleave⟩ := leave_found hplace hpart hk₂
      have hwalks := Walks.intro henter hpasses
      rw [hleave, Visit.andThen, List.nil_append] at hwalks
      exact ⟨k₃, hk₃, hwalks⟩

end Found

/-! ## Searches -/

/-- What becomes of a target as a job that works in place: where that fails, the target is as it
was. -/
def Job.of (f : (t : Target) → ω → t.Part → ω × Except ε (α × Edited t.Part)) :
    Job ω (Except ε α) := fun t world part =>
  let left := Left.of part (f t world part).2
  ⟨(left.result, (f t world part).1), left.state, left.heard⟩

def Job.ofEdit (edit : (t : Target) → t.Part → Except ε (Edited t.Part)) :
    Job Unit (Except ε Unit) :=
  .of fun t () part => ((), (edit t part).map fun e => ((), e))

/-- Not to find the target and to fail on it are failures alike. -/
def Left.join {σ : Type} (l : Left ε σ (Except ε α)) : Left ε σ α :=
  ⟨l.result.bind id, l.state, l.heard⟩

namespace Site

variable {s : Site} {p : s.Part} {i : Nat}

theorem searches_found {l : s.Located} (h : s.target? p i = some l) (job : Job ω ρ) (world : ω)
    (o : ω × Left EditorError s.Part ρ) :
    let done := job l.place.target world l.part
    s.Searches i job world p o ↔ o = (done.kept.2,
      ⟨.ok done.kept.1, l.place.path.tell done.heard done.state p, done.heard⟩) := by
  obtain ⟨hplace, hpart⟩ := target?_eq_some h
  have hwaits : Search.Waits i job world i ⟨0, some job, none, world⟩ := ⟨0, Nat.zero_add i, rfl⟩
  obtain ⟨k, ⟨position, rfl⟩, hwalks⟩ := walks_found i job world s p hplace hpart hwaits
  exact searches_iff hwalks o

theorem searches_missing (h : s.target? p i = none) (job : Job ω ρ) (world : ω)
    (o : ω × Left EditorError s.Part ρ) :
    s.Searches i job world p o ↔ o = (world, ⟨.error (.noSuchTarget i), p, []⟩) := by
  have hlength : (s.met p).length ≤ i := by
    rw [← List.getElem?_eq_none_iff, met_getElem?, h]
    rfl
  have hwaits : Search.Waits i job world ((s.met p ++ []).length + (i - (s.met p).length))
      ⟨0, some job, none, world⟩ := ⟨0, by rw [List.append_nil]; omega, rfl⟩
  obtain ⟨k, ⟨position, -, rfl⟩, hwalks⟩ :=
    walks_spared (Search.waits_spares i job world _) s p hwaits
  exact searches_iff hwalks o

/-- A search ends whatever its job is. -/
theorem exists_searches (s : Site) (i : Nat) (job : Job ω ρ) (world : ω) (p : s.Part) :
    ∃ o, s.Searches i job world p o := by
  cases hl : s.target? p i with
  | none => exact ⟨_, (searches_missing hl job world _).mpr rfl⟩
  | some l => exact ⟨_, (searches_found hl job world _).mpr rfl⟩

/-- A job that works in place comes to what the edit of the whole part comes to. -/
theorem searches_of {l : s.Located} (h : s.target? p i = some l)
    {f : (t : Target) → ω → t.Part → ω × Except EditorError (α × Edited t.Part)} {world : ω}
    {o : ω × Left EditorError s.Part (Except EditorError α)} (ho : s.Searches i (.of f) world p o) :
    (o.1, o.2.join) = ((f l.place.target world l.part).1,
      .of p ((f l.place.target world l.part).2.map
        fun (a, e) => (a, ⟨l.place.path.put e p, e.origin⟩))) := by
  have hput := l.place.path.tell_toList ⟨l.part, none⟩ p
  rw [Path.put_get? (target?_eq_some h).2] at hput
  cases (searches_found h (.of f) world o).mp ho
  dsimp only [Job.of]
  rcases (f l.place.target world l.part).2 with e | ⟨a, e⟩
  · exact congrArg (fun p' => (_, Left.mk (.error e) p' [])) hput
  · exact congrArg (fun p' => (_, Left.mk (.ok a) p' _)) (l.place.path.tell_toList e p)

/-- An edit of the target with a number is a search for it. -/
theorem withTarget_searches (s : Site) (i : Nat) (p : s.Part)
    (edit : (t : Target) → t.Part → Except EditorError (Edited t.Part)) :
    ∃ left, s.Searches i (.ofEdit edit) () p ((), left) ∧
      left.join = .of p ((s.withTarget p i (.noSuchTarget i) edit).map fun e => ((), e)) := by
  obtain ⟨⟨⟨⟩, left⟩, hleft⟩ := s.exists_searches i (.ofEdit edit) () p
  refine ⟨left, hleft, ?_⟩
  unfold withTarget
  cases hl : s.target? p i with
  | none =>
    cases (searches_missing hl (.ofEdit edit) () _).mp hleft
    rfl
  | some l =>
    refine (congrArg Prod.snd (searches_of hl hleft)).trans ?_
    dsimp only
    cases edit l.place.target l.part <;> rfl

/-- A search calls for its job exactly once, on the target that the listing of before the call has
under the number, and comes to what the job comes to; all that has changed is what the job has left
there, and what the parts around have heard of it. Where the listing has no such number, nothing is
called for and nothing has changed. What the job has put into the target is gone through as well,
and so the search may have counted further than the listing goes. An edit by number is a search. -/
theorem searches_exact (s : Site) (i : Nat) (job : Job ω ρ) (world : ω) (p : s.Part) :
    s.Walks collect [] p ⟨s.targets p, p, []⟩ ∧
      (∀ h : i < (s.targets p).length, ∃ place part, s.target? p i = some ⟨place, part⟩ ∧
        place.target.info i part = (s.targets p)[i] ∧
        let done := job place.target world part
        let after := place.path.tell done.heard done.state p
        place.path.get? after = some done.state ∧ ∀ o,
          s.Searches i job world p o ↔ o = (done.kept.2, ⟨.ok done.kept.1, after, done.heard⟩)) ∧
      ((s.targets p).length ≤ i →
        ∀ o, s.Searches i job world p o ↔ o = (world, ⟨.error (.noSuchTarget i), p, []⟩)) ∧
      ∀ edit, ∃ left, s.Searches i (.ofEdit edit) () p ((), left) ∧
        left.join = .of p ((s.withTarget p i (.noSuchTarget i) edit).map fun e => ((), e)) := by
  refine ⟨s.walks_collect p, fun h => ?_, fun h => ?_, s.withTarget_searches i p⟩
  · have hlisted := s.targets_getElem? p i
    rw [List.getElem?_eq_getElem h] at hlisted
    obtain ⟨⟨place, part⟩, hl, hinfo⟩ := Option.map_eq_some_iff.mp hlisted.symm
    have hpart := (target?_eq_some hl).2
    exact ⟨place, part, hl, hinfo, Path.get?_tell hpart _ _, searches_found hl job world⟩
  · have hlisted := s.targets_getElem? p i
    rw [List.getElem?_eq_none h] at hlisted
    exact searches_missing (Option.map_eq_none_iff.mp hlisted.symm) job world

end Site

/-- A release over the target with a number is a search, in which the drag is let go. -/
theorem Drag.dropAt_searches {s : Site} {d : Drag} (h : d.isDragging = true) (p : s.Part)
    (i : Nat) : ∃ o, s.Searches i (.of fun t drag part => drag.dropOn t part) d p o ∧
      (o.1, o.2.join) = ((d.dropAt p i).1, .of p (d.dropAt p i).2) := by
  obtain ⟨o, ho⟩ := s.exists_searches i (.of fun t (drag : Drag) part => drag.dropOn t part) d p
  refine ⟨o, ho, ?_⟩
  unfold dropAt
  simp only [h, Bool.not_true, Bool.false_eq_true, if_false]
  cases hl : s.target? p i with
  | none =>
    cases (Site.searches_missing hl _ d o).mp ho
    rfl
  | some l =>
    refine (Site.searches_of hl ho).trans ?_
    dsimp only [dropAtPlace]
    rcases d.dropOn l.place.target l.part with ⟨drag, e | ⟨outcome, e⟩⟩ <;> rfl

/-- Hands over a component, and counts how often. -/
def counted (c : Component) : Job Nat (Except EditorError Unit) :=
  .of fun t n part => (n + 1, (t.accept part c).map fun e => ((), e))

/-- The title that goes into the text of the scene has a slot for its video, a target more, which
the search then meets as well. It has handed over one title. -/
theorem sampleDocument_searches :
    (Site.act.targets sampleDocument.root).length = 5 ∧
      (∃ left, Site.act.Searches 1 (counted (.expr (.titleOf .gap))) 0 sampleDocument.root
        (1, left) ∧ left.result = .ok (.ok ()) ∧ (Site.act.targets left.state).length = 6) ∧
      Site.act.Searches 5 (counted (.expr (.titleOf .gap))) 0 sampleDocument.root
        (0, ⟨.error (.noSuchTarget 5), sampleDocument.root, []⟩) := by
  have hlength : (Site.act.targets sampleDocument.root).length = 5 := rfl
  obtain ⟨-, hfound, -⟩ := Site.searches_exact .act 1 (counted (.expr (.titleOf .gap))) 0
    sampleDocument.root
  obtain ⟨-, -, hmissing, -⟩ := Site.searches_exact .act 5 (counted (.expr (.titleOf .gap))) 0
    sampleDocument.root
  obtain ⟨place, part, hl, -, -, hsearch⟩ := hfound (by rw [hlength]; decide)
  cases hl
  exact ⟨hlength, ⟨_, (hsearch _).mpr rfl, rfl, rfl⟩, (hmissing hlength.le _).mpr rfl⟩

end SceneScript
