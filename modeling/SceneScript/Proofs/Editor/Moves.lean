import SceneScript.Proofs.Editor.Actions
import SceneScript.Proofs.Editor.Numbering
import SceneScript.Proofs.Editor.Rewiring

/-! Moves: actions anywhere in a tree, and drags released over its targets. Counts are no part of
the script, so that the targets of a tree are the same however it counts. A move does the same to a
tree among the notifiers as to one that counts for itself. -/

namespace SceneScript

variable {a b s : Site} {f : Forest}

/-! ## The script of a tree with other counts -/

section Recount

variable (g : Nat → Nat)

theorem Site.model_recount (s : Site) (p : s.Part) : s.model (s.recount g p) = s.model p := by
  rw [s.recount_eq, s.model_relabel]

theorem Site.places_recount (s : Site) (p : s.Part) : s.places (s.recount g p) = s.places p := by
  rw [s.places_model, s.places_model, s.model_recount]

theorem Site.target?_recount (s : Site) (p : s.Part) (i : Nat) :
    s.target? (s.recount g p) i = (s.target? p i).map fun l =>
      ⟨l.place, l.place.target.site.recount g l.part⟩ := by
  unfold target?
  rw [s.places_recount]
  cases (s.places p)[i]? with
  | none => rfl
  | some place =>
    show ((place.path.get? (s.recount g p)).bind fun part => some _) = Option.map _
      ((place.path.get? p).bind fun part => some _)
    rw [place.path.get?_recount]
    cases place.path.get? p <;> rfl

theorem Target.frame_recount (t : Target) (part : t.Part) :
    t.frame (t.site.recount g part) = (t.frame part).recount g := by
  rw [t.site.recount_eq, t.frame_relabel]
  rfl

theorem Target.dragEnter_recount (t : Target) (part : t.Part) (payload : Payload) :
    t.dragEnter (t.site.recount g part) payload = t.dragEnter part payload := by
  have henabled : t.isEnabled (t.site.recount g part) = t.isEnabled part := by
    simp only [isEnabled, t.frame_recount, Frame.recount]
  simp only [dragEnter, isAcceptable, henabled]

end Recount

/-! ## Moves of a tree that counts for itself -/

/-- An edit of the part at the end of a path. -/
def Path.change (path : Path s b) (edit : b.Part → Except SessionFault (Edited b.Part))
    (p : s.Part) : Except SessionFault (Edited s.Part) :=
  (path.edit? edit p).getD (.error .notHere)

/-- What comes of a drag that is released over a place. -/
def Place.release (place : Place s) (drag : Drag) (p : s.Part) :
    Except SessionFault (DragOutcome × Edited s.Part) :=
  match place.path.get? p with
  | some part => Action.lift (drag.dropAtPlace p ⟨place, part⟩).2
  | none => .error .notHere

/-- The place itself, if it took what was released over it. -/
def Place.taken? (place : Place s) :
    Except SessionFault (DragOutcome × Edited s.Part) → Option (Way s)
  | .ok (.dropped, _) => some ⟨_, place.path⟩
  | _ => none

/-- An action on some part, or a drag that is released over a place or over the target with a
number. -/
inductive Move (s : Site)
  | edit {b : Site} (path : Path s b) (x : Action)
  | dropOn (drag : Drag) (place : Place s)
  | dropAt (drag : Drag) (i : Nat)

namespace Move

def on : Move s → s.Part → Except SessionFault (Edited s.Part)
  | edit path x, p => path.change (x.on _) p
  | dropOn drag place, p => (place.release drag p).map (·.2)
  | dropAt drag i, p => (Action.lift (drag.dropAt p i).2).map (·.2)

/-- The tree after a move; one that fails leaves it as it was. -/
def tree (m : Move s) (p : s.Part) : s.Part :=
  match m.on p with
  | .ok e => e.part
  | .error _ => p

/-- The tree after a run of moves. -/
def run (moves : List (Move s)) (p : s.Part) : s.Part := moves.foldl (fun p m => m.tree p) p

/-- Where a move mutates a tree, if it does: where something was filled, emptied or appended, by a
drop or directly, or where a control holds something else now. An act and a command sequence append
to their lists. -/
def mutation? : Move s → s.Part → Option (Way s)
  | edit (b := b) path x, p =>
    match path.get? p with
    | none => none
    | some q =>
      match x.on b q with
      | .error _ => none
      | .ok e =>
        if x.origin = .control ∧ b.widgets e.part = b.widgets q then none
        else some ⟨_, path.append (x.way b).path⟩
  | dropOn drag place, p => place.taken? (place.release drag p)
  | dropAt drag i, p =>
    (s.target? p i).bind fun l => l.place.taken? (Action.lift (drag.dropAt p i).2)

end Move

/-! ## Moves among the notifiers -/

/-- An edit of the part at the end of a path, among the notifiers. -/
def Path.rewire (path : Path s b) (edit : b.Part → Forest → Except SessionFault (Rewired b))
    (p : s.Part) (f : Forest) : Except SessionFault (Rewired s) :=
  match path.get? p with
  | some q => do
    let r ← edit q f
    .ok ⟨path.put ⟨r.part, none⟩ p, r.forest, r.told⟩
  | none => .error .notHere

/-- Releases a drag over a target: it takes what it lets in. -/
def Drag.wireDrop (drag : Drag) (t : Target) (part : t.Part) (f : Forest) :
    Except SessionFault (Rewired t.site) :=
  match drag.payload with
  | none => .error (.editor .noActiveDrag)
  | some payload =>
    if t.dragEnter part payload then do
      let c ← Action.lift payload.decode
      (t.taking c).wire t.site part f
    else .ok ⟨part, f, none⟩

def Move.wire : Move s → s.Part → Forest → Except SessionFault (Rewired s)
  | edit path x, p, f => path.rewire (x.wire _) p f
  | dropOn drag place, p, f => place.path.rewire (drag.wireDrop place.target) p f
  | dropAt drag i, p, f =>
    if !drag.isDragging then .error (.editor .noActiveDrag)
    else
      match s.target? p i with
      | some l => l.place.path.rewire (drag.wireDrop l.place.target) p f
      | none => .error (.editor (.noSuchTarget i))

/-! ## What the same move makes of a tree that counts for itself -/

open Rewired (Mirrors)

theorem Path.change_of_get? {path : Path s b} {p : s.Part} {q : b.Part}
    (h : path.get? p = some q) (edit : b.Part → Except SessionFault (Edited b.Part)) :
    path.change edit p = (do
      let e ← edit q
      .ok ⟨path.put e p, e.origin⟩) := by
  simp only [change, edit?, h, Option.map_some, Option.getD_some]

theorem Path.change_none {path : Path s b} {p : s.Part} (h : path.get? p = none)
    (edit : b.Part → Except SessionFault (Edited b.Part)) :
    path.change edit p = .error .notHere := by
  simp only [change, edit?, h, Option.map_none, Option.getD_none]

/-- What is edited at the end of a path is edited in the tree. -/
theorem Rewired.Mirrors.along {path : Path s b} {p : s.Part} {q : b.Part} {way : Way b}
    (hq : path.get? p = some q) {plain : Except SessionFault (Edited b.Part)}
    {linked : Except SessionFault (Rewired b)} (h : Mirrors f q way plain linked) :
    Mirrors f p ⟨way.site, path.append way.path⟩
      (do
        let e ← plain
        .ok ⟨path.put e (s.recount f.emittedAt p), e.origin⟩)
      (do
        let r ← linked
        .ok ⟨path.put ⟨r.part, none⟩ p, r.forest, r.told⟩) := by
  cases h with
  | refused e => exact .refused e
  | silent =>
    simp only [bind_ok, ← path.recount_put, Path.put_get? hq]
    exact .silent
  | told h =>
    simp only [bind_ok, h.origin]
    exact .told (h.along hq)

theorem Path.mirrors {path : Path s b} {p : s.Part} (way : Way b)
    {edit : b.Part → Except SessionFault (Edited b.Part)}
    {wired : b.Part → Forest → Except SessionFault (Rewired b)}
    (h : ∀ q, path.get? p = some q →
      Mirrors f q way (edit (b.recount f.emittedAt q)) (wired q f)) :
    Mirrors f p ⟨way.site, path.append way.path⟩ (path.change edit (s.recount f.emittedAt p))
      (path.rewire wired p f) := by
  unfold rewire
  cases hq : path.get? p with
  | none =>
    rw [Path.change_none (by rw [path.get?_recount, hq]; rfl)]
    exact .refused _
  | some q =>
    have hq' : path.get? (s.recount f.emittedAt p) = some (b.recount f.emittedAt q) := by
      rw [path.get?_recount, hq]
      rfl
    rw [Path.change_of_get? hq']
    exact (h q hq).along hq

theorem Target.way_taking (t : Target) (c : Component) :
    (t.taking c).way t.site = ⟨t.site, .here⟩ := by
  cases t <;> rfl

/-- What a target makes of a drag that is released over it. -/
def Target.received (t : Target) (drag : Drag) (part : t.Part) :
    Except SessionFault (Edited t.Part) :=
  (Action.lift (drag.dropOn t part).2).map (·.2)

/-- A target takes what it lets in, and nothing else. -/
theorem Target.received_eq {t : Target} {drag : Drag} {payload : Payload}
    (h : drag.payload = some payload) (part : t.Part) : t.received drag part =
      if t.dragEnter part payload then (do
        let c ← Action.lift payload.decode
        (t.taking c).on t.site part)
      else .ok ⟨part, none⟩ := by
  have hdrop : t.received drag part =
      (Action.lift (Drag.resolve payload t part)).map (·.2) := by
    unfold received Drag.dropOn
    rw [h]
    dsimp only
    cases Drag.resolve payload t part <;> rfl
  rw [hdrop]
  unfold Drag.resolve
  cases henter : t.dragEnter part payload with
  | false => cases t.isEnabled part <;> rfl
  | true =>
    have henabled : t.isEnabled part = true := by
      unfold dragEnter at henter
      simp only [Bool.and_eq_true] at henter
      exact henter.1.1
    simp only [henabled, Bool.not_true, Bool.false_eq_true, if_false, if_true, ← t.accept_eq]
    cases payload.decode with
    | error e => rfl
    | ok c =>
      simp only [bind_ok, Action.lift, mapError_ok]
      cases t.accept part c <;> rfl

theorem Drag.wireDrop_mirrors {drag : Drag} {t : Target} {part : t.Part}
    (h : ∀ j ∈ (t.site.reports part).numbers, j < f.size) :
    Mirrors f part ⟨t.site, .here⟩ (t.received drag (t.site.recount f.emittedAt part))
      (drag.wireDrop t part f) := by
  unfold wireDrop
  cases hpayload : drag.payload with
  | none =>
    unfold Target.received dropOn
    rw [hpayload]
    exact .refused _
  | some payload =>
    rw [Target.received_eq hpayload, t.dragEnter_recount]
    dsimp only
    split
    · cases payload.decode with
      | error e => exact .refused _
      | ok c =>
        have htaken := (t.taking c).mirrors h
        rw [t.way_taking] at htaken
        exact htaken
    · exact .silent

/-- A drag that is released over a place is dealt with by the target there. -/
theorem Place.release_eq (place : Place s) (drag : Drag) (p : s.Part) :
    (place.release drag p).map (·.2) = place.path.change (place.target.received drag) p := by
  unfold release
  cases hpart : place.path.get? p with
  | none => exact (Path.change_none hpart _).symm
  | some part =>
    rw [Path.change_of_get? hpart]
    unfold Target.received Drag.dropAtPlace
    dsimp only
    rcases drag.dropOn place.target part with ⟨drag', r⟩
    cases r <;> rfl

theorem Place.mirrors {place : Place s} {drag : Drag} {p : s.Part}
    (h : ∀ j ∈ (s.reports p).numbers, j < f.size) :
    Mirrors f p ⟨_, place.path⟩ ((place.release drag (s.recount f.emittedAt p)).map (·.2))
      (place.path.rewire (drag.wireDrop place.target) p f) := by
  rw [place.release_eq]
  have hpath : Mirrors f p ⟨_, place.path.append .here⟩
      (place.path.change (place.target.received drag) (s.recount f.emittedAt p))
      (place.path.rewire (drag.wireDrop place.target) p f) :=
    Path.mirrors ⟨_, .here⟩ fun part hpart =>
      Drag.wireDrop_mirrors fun j hj => h j (Path.numbers_subset hpart j hj)
  rwa [Path.append_here] at hpath

theorem Drag.dropAt_idle {drag : Drag} (h : drag.isDragging = false) (p : s.Part) (i : Nat) :
    (drag.dropAt p i).2 = .error .noActiveDrag := by
  unfold dropAt
  rw [h]
  rfl

theorem Drag.dropAt_missing {drag : Drag} (h : drag.isDragging = true) {p : s.Part} {i : Nat}
    (hl : s.target? p i = none) : (drag.dropAt p i).2 = .error (.noSuchTarget i) := by
  unfold dropAt
  rw [h, hl]
  rfl

theorem Drag.dropAt_release {drag : Drag} (hdragging : drag.isDragging = true) {p : s.Part} {i : Nat}
    {l : s.Located} (hl : s.target? p i = some l) :
    Action.lift (drag.dropAt p i).2 = l.place.release drag p := by
  have hpart : l.place.path.get? p = some l.part := (Site.target?_eq_some hl).2
  unfold dropAt Place.release
  simp only [hdragging, hl, hpart]
  rfl

namespace Move

/-- The way to where a move is made. -/
def way : Move s → s.Part → Way s
  | edit (b := b) path x, _ => ⟨_, path.append (x.way b).path⟩
  | dropOn _ place, _ => ⟨_, place.path⟩
  | dropAt _ i, p =>
    match s.target? p i with
    | some l => ⟨_, l.place.path⟩
    | none => ⟨s, .here⟩

theorem way_recount (g : Nat → Nat) (m : Move s) (p : s.Part) : m.way (s.recount g p) = m.way p := by
  cases m with
  | edit path x => rfl
  | dropOn drag place => rfl
  | dropAt drag i =>
    simp only [way, s.target?_recount]
    cases s.target? p i <;> rfl

/-- A move does the same to a tree among the notifiers as to one that counts for itself. -/
theorem mirrors (m : Move s) {p : s.Part} (h : ∀ j ∈ (s.reports p).numbers, j < f.size) :
    Mirrors f p (m.way p) (m.on (s.recount f.emittedAt p)) (m.wire p f) := by
  cases m with
  | edit path x =>
    exact Path.mirrors _ fun q hq => x.mirrors fun j hj => h j (Path.numbers_subset hq j hj)
  | dropOn drag place => exact Place.mirrors h
  | dropAt drag i =>
    have htarget := s.target?_recount f.emittedAt p i
    simp only [way, on, wire]
    cases hdragging : drag.isDragging with
    | false =>
      rw [Drag.dropAt_idle hdragging]
      exact .refused _
    | true =>
      cases hl : s.target? p i with
      | none =>
        rw [hl] at htarget
        rw [Drag.dropAt_missing hdragging htarget]
        exact .refused _
      | some l =>
        rw [hl] at htarget
        rw [Drag.dropAt_release hdragging htarget]
        exact Place.mirrors h

end Move

/-! ## Mutations are announced -/

/-- What is announced of a release is that something was taken. -/
theorem Place.taken?_release {place : Place s} {drag : Drag} {p : s.Part} :
    place.taken? (place.release drag p) =
      ((place.release drag p).map (·.2)).toOption.bind fun e => e.origin.map fun _ =>
        ⟨_, place.path⟩ := by
  unfold release
  cases hpart : place.path.get? p with
  | none => rfl
  | some part =>
    have hends := drag.dropAtPlace_ends (l := ⟨place, part⟩) hpart
    dsimp only
    generalize drag.dropAtPlace p ⟨place, part⟩ = r at hends
    cases hends with
    | missed after result => cases result <;> rfl
    | dropped hc he =>
      obtain ⟨inner, he, rfl⟩ := he
      show some _ = inner.origin.map _
      rw [Target.origin_accept he.accept]
      rfl

namespace Move

/-- A move mutates a tree exactly if it announces a change. -/
theorem mutation?_eq (m : Move s) (p : s.Part) :
    m.mutation? p = (m.on p).toOption.bind fun e => e.origin.map fun _ => m.way p := by
  cases m with
  | edit path x =>
    simp only [mutation?, on, way]
    cases hq : path.get? p with
    | none =>
      rw [Path.change_none hq]
      rfl
    | some q =>
      rw [Path.change_of_get? hq]
      dsimp only
      cases hx : x.on _ q with
      | error e => rfl
      | ok e =>
        show (if _ then none else some _) = e.origin.map _
        obtain ⟨hcontrol, rfl⟩ | ⟨horigin, hchanged⟩ := Action.on_tells hx
        · exact if_pos ⟨hcontrol, rfl⟩
        · rw [horigin]
          exact if_neg fun hsame => hchanged hsame.1 hsame.2
  | dropOn drag place => exact Place.taken?_release
  | dropAt drag i =>
    simp only [mutation?, on, way]
    cases hdragging : drag.isDragging with
    | false =>
      rw [Drag.dropAt_idle hdragging]
      cases s.target? p i <;> rfl
    | true =>
      cases hl : s.target? p i with
      | none =>
        rw [Drag.dropAt_missing hdragging hl]
        rfl
      | some l =>
        rw [Drag.dropAt_release hdragging hl]
        exact Place.taken?_release

end Move

end SceneScript
