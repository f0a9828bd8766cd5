import Mathlib.Logic.Basic
import SceneScript.Proofs.Editor.Revisions

/-! Trees with other counts. The same tree may be read with a number in the place of each count:
that of the part's notifier among others. Reading the counts of these notifiers then gives the tree
that was meant. What is read at a part depends on the numbers inside it alone. -/

namespace SceneScript

variable {α : Type} {a b b' s : Site} (g : Nat → Nat)

/-! ## Replacing counts -/

def Frame.recount (frame : Frame) : Frame := { frame with emitted := g frame.emitted }

mutual

def Node.recount : {f : Family} → Node f → Node f
  | _, .number field n => .number field (g n)
  | _, .operation o x y n => .operation o x.recount y.recount (g n)
  | _, .text field n => .text field (g n)
  | _, .title v n => .title v.recount (g n)
  | _, .url field n => .url field (g n)
  | _, .random c n => .random c.recount (g n)
  | _, .related v n => .related v.recount (g n)

def Slot.recount : {f : Family} → Slot f → Slot f
  | _, .empty frame => .empty (frame.recount g)
  | _, .full frame node => .full (frame.recount g) node.recount

end

def StatementNode.recount : StatementNode → StatementNode
  | get name n => get name (g n)
  | set name value n => set name (value.recount g) (g n)

def ListEditor.recount (item : α → α) (l : ListEditor α) : ListEditor α :=
  l.mapFlags item (Frame.recount g)

def SequenceNode.recount (s : SequenceNode) : SequenceNode :=
  ⟨s.commands.recount g (StatementNode.recount g)⟩

def SceneFrame.recount (f : SceneFrame) : SceneFrame where
  comment := f.comment
  duration := f.duration.recount g
  preCommands := f.preCommands.recount g
  postCommands := f.postCommands.recount g
  emitted := g f.emitted

def SceneNode.recount : SceneNode → SceneNode
  | text f t => text (f.recount g) (t.recount g)
  | video f source offset => video (f.recount g) (source.recount g) (offset.recount g)

def ActNode.recount (a : ActNode) : ActNode :=
  ⟨a.scenes.recount g (SceneNode.recount g), g a.emitted⟩

/-- The part with each count replaced by another. -/
def Site.recount : (s : Site) → s.Part → s.Part
  | slot _, p => p.recount g
  | node _, p => p.recount g
  | statement, p => p.recount g
  | commands, p => p.recount g (StatementNode.recount g)
  | sequence, p => p.recount g
  | scene, p => p.recount g
  | scenes, p => p.recount g (SceneNode.recount g)
  | act, p => p.recount g

/-! ### As a relabeling -/

def Relabeling.recount : Relabeling where
  readOnly readOnly := readOnly
  highlighted _ _ highlighted := highlighted
  emitted := g

mutual

theorem Node.recount_eq : ∀ {f : Family} (n : Node f), n.recount g = n.relabel (.recount g)
  | _, .number _ _ | _, .text _ _ | _, .url _ _ => rfl
  | _, .operation _ x y _ => by
    rw [Node.recount, x.recount_eq, y.recount_eq]
    rfl
  | _, .title v _ | _, .related v _ => by
    rw [Node.recount, v.recount_eq]
    rfl
  | _, .random c _ => by
    rw [Node.recount, c.recount_eq]
    rfl

theorem Slot.recount_eq : ∀ {f : Family} (s : Slot f), s.recount g = s.relabel (.recount g)
  | _, .empty _ => rfl
  | _, .full _ node => congrArg (Slot.full _) node.recount_eq

end

theorem StatementNode.recount_eq : StatementNode.recount g = StatementNode.relabel (.recount g) := by
  funext s
  cases s with
  | get => rfl
  | set _ value _ => exact congrArg (set _ · _) (value.recount_eq g)

theorem SequenceNode.recount_eq (s : SequenceNode) : s.recount g = s.relabel (.recount g) := by
  rw [recount, StatementNode.recount_eq]
  rfl

theorem SceneFrame.recount_eq (f : SceneFrame) : f.recount g = f.relabel (.recount g) := by
  rw [recount, f.duration.recount_eq, f.preCommands.recount_eq, f.postCommands.recount_eq]
  rfl

theorem SceneNode.recount_eq : SceneNode.recount g = SceneNode.relabel (.recount g) := by
  funext s
  cases s with
  | text f t => rw [recount, f.recount_eq, t.recount_eq, relabel]
  | video f source offset =>
    rw [recount, f.recount_eq, source.recount_eq, offset.recount_eq, relabel]

theorem Site.recount_eq (s : Site) (p : s.Part) : s.recount g p = s.relabel (.recount g) p := by
  cases s with
  | slot => exact p.recount_eq g
  | node => exact p.recount_eq g
  | statement => exact congrFun (StatementNode.recount_eq g) p
  | commands =>
    rw [recount, StatementNode.recount_eq]
    rfl
  | sequence => exact p.recount_eq g
  | scene => exact congrFun (SceneNode.recount_eq g) p
  | scenes =>
    rw [recount, SceneNode.recount_eq]
    rfl
  | act =>
    rw [recount, ActNode.recount, SceneNode.recount_eq]
    rfl

theorem Site.emitted_recount (s : Site) (p : s.Part) :
    s.emitted (s.recount g p) = g (s.emitted p) := by
  rw [s.recount_eq, s.emitted_relabel]
  rfl

theorem Step.get?_recount (step : Step a b) (p : a.Part) :
    step.get? (a.recount g p) = (step.get? p).map (b.recount g) := by
  rw [a.recount_eq, step.get?_relabel, funext (b.recount_eq g)]

theorem Path.get?_recount (path : Path a b) (p : a.Part) :
    path.get? (a.recount g p) = (path.get? p).map (b.recount g) := by
  rw [a.recount_eq, path.get?_relabel, funext (b.recount_eq g)]

theorem Step.recount_put (step : Step a b) (q : b.Part) (p : a.Part) :
    a.recount g (step.put q p) = step.put (b.recount g q) (a.recount g p) := by
  cases step with
  | occupant | op1 | op2 | titleVideo | collection | relatedVideo | value => cases p <;> rfl
  | preCommands | postCommands | duration | text | source | offset => cases p <;> rfl
  | command i | scene i => exact congrArg (ListEditor.mk · _) List.map_set
  | commands | scenes => rfl

theorem Path.recount_put (path : Path a b) (q : b.Part) (p : a.Part) :
    a.recount g (path.put ⟨q, none⟩ p) = path.put ⟨b.recount g q, none⟩ (a.recount g p) := by
  induction path with
  | here => rfl
  | step step rest ih =>
    simp only [put, step.get?_recount]
    cases step.get? p with
    | none => rfl
    | some old =>
      simp only [Option.map_some, Site.announce_none, step.recount_put, ih]

/-! ## The numbers in a part -/

mutual

/-- All numbers, that of a part before those inside it. -/
def Reports.numbers : Reports → List Nat
  | .mk n below => n :: numbersAll below

def Reports.numbersAll : List Reports → List Nat
  | [] => []
  | r :: rs => r.numbers ++ numbersAll rs

end

theorem Reports.numbersAll_append (rs ts : List Reports) :
    numbersAll (rs ++ ts) = numbersAll rs ++ numbersAll ts := by
  induction rs with
  | nil => rfl
  | cons r rs ih => simp only [List.cons_append, numbersAll, ih, List.append_assoc]

theorem Reports.mem_numbersAll {rs : List Reports} {j : Nat} :
    j ∈ numbersAll rs ↔ ∃ r ∈ rs, j ∈ r.numbers := by
  induction rs with
  | nil => simp [numbersAll]
  | cons r rs ih => simp [numbersAll, ih]

variable {g} {G : Nat → Nat}

/-- Two ways of counting that agree on all of these numbers. -/
def Reports.AgreeOn (g G : Nat → Nat) (rs : List Reports) : Prop := ∀ j ∈ numbersAll rs, G j = g j

theorem Reports.agree_cons {r : Reports} {rs : List Reports} :
    AgreeOn g G (r :: rs) ↔ (∀ j ∈ r.numbers, G j = g j) ∧ AgreeOn g G rs := by
  simp only [AgreeOn, numbersAll, List.mem_append, or_imp, forall_and]

theorem Reports.agree_singleton {r : Reports} : AgreeOn g G [r] ↔ ∀ j ∈ r.numbers, G j = g j := by
  simp [AgreeOn, numbersAll]

theorem Reports.agree_append {r t : List Reports} :
    AgreeOn g G (r ++ t) ↔ AgreeOn g G r ∧ AgreeOn g G t := by
  simp only [AgreeOn, numbersAll_append, List.mem_append, or_imp, forall_and]

theorem Reports.agree_mk {n : Nat} {below : List Reports} :
    (∀ j ∈ (Reports.mk n below).numbers, G j = g j) ↔ G n = g n ∧ AgreeOn g G below := by
  simp only [AgreeOn, numbers, List.mem_cons, forall_eq_or_imp]

open Reports

theorem Frame.recount_congr {frame : Frame} (h : G frame.emitted = g frame.emitted) :
    frame.recount G = frame.recount g := by
  simp only [recount, h]

mutual

theorem Node.recount_congr : ∀ {f : Family} {n : Node f}, (∀ j ∈ n.reports.numbers, G j = g j) →
    n.recount G = n.recount g
  | _, .number field n, h => congrArg (Node.number field) (agree_mk.mp h).1
  | _, .text field n, h => congrArg (Node.text field) (agree_mk.mp h).1
  | _, .url field n, h => congrArg (Node.url field) (agree_mk.mp h).1
  | _, .operation o x y n, h => by
    obtain ⟨hown, hbelow⟩ := agree_mk.mp h
    obtain ⟨hx, hbelow⟩ := agree_cons.mp hbelow
    simp only [Node.recount, hown, Slot.recount_congr hx,
      Slot.recount_congr (agree_singleton.mp hbelow)]
  | _, .title v n, h | _, .related v n, h => by
    obtain ⟨hown, hbelow⟩ := agree_mk.mp h
    simp only [Node.recount, hown, Slot.recount_congr (agree_singleton.mp hbelow)]
  | _, .random c n, h => by
    obtain ⟨hown, hbelow⟩ := agree_mk.mp h
    simp only [Node.recount, hown, Slot.recount_congr (agree_singleton.mp hbelow)]

theorem Slot.recount_congr : ∀ {f : Family} {s : Slot f}, (∀ j ∈ s.reports.numbers, G j = g j) →
    s.recount G = s.recount g
  | _, .empty frame, h => congrArg Slot.empty (Frame.recount_congr (agree_mk.mp h).1)
  | _, .full frame node, h => by
    obtain ⟨hown, hbelow⟩ := agree_mk.mp h
    simp only [Slot.recount, Frame.recount_congr hown,
      Node.recount_congr (agree_singleton.mp hbelow)]

end

theorem StatementNode.recount_congr : ∀ {n : StatementNode},
    (∀ j ∈ n.reports.numbers, G j = g j) → n.recount G = n.recount g
  | get name n, h => congrArg (get name) (agree_mk.mp h).1
  | set name value n, h => by
    obtain ⟨hown, hbelow⟩ := agree_mk.mp h
    simp only [recount, hown, Slot.recount_congr (agree_singleton.mp hbelow)]

theorem map_recount_congr {item : (Nat → Nat) → α → α} {reports : α → Reports}
    (hitem : ∀ {x : α}, (∀ j ∈ (reports x).numbers, G j = g j) → item G x = item g x) :
    ∀ {xs : List α}, AgreeOn g G (xs.map reports) → xs.map (item G) = xs.map (item g)
  | [], _ => rfl
  | x :: xs, h => by
    obtain ⟨hx, hxs⟩ := agree_cons.mp h
    rw [List.map_cons, List.map_cons, hitem hx, map_recount_congr hitem hxs]

theorem ListEditor.recount_congr {item : (Nat → Nat) → α → α} {reports : α → Reports}
    (hitem : ∀ {x : α}, (∀ j ∈ (reports x).numbers, G j = g j) → item G x = item g x)
    {l : ListEditor α} (h : ∀ j ∈ (l.reports reports).numbers, G j = g j) :
    l.recount G (item G) = l.recount g (item g) := by
  obtain ⟨hown, hbelow⟩ := agree_mk.mp h
  simp only [recount, mapFlags, Frame.recount_congr hown, map_recount_congr hitem hbelow]

theorem SequenceNode.recount_congr {s : SequenceNode} (h : ∀ j ∈ s.reports.numbers, G j = g j) :
    s.recount G = s.recount g :=
  congrArg SequenceNode.mk (ListEditor.recount_congr StatementNode.recount_congr h)

/-- What a scene has in common with others comes first, and the rest behind it. -/
theorem SceneFrame.recount_parts {f : SceneFrame} {rest : List Reports}
    (h : AgreeOn g G (f.duration.reports :: f.preCommands.reports :: f.postCommands.reports :: rest)) :
    f.recount G = { f.recount g with emitted := G f.emitted } ∧ AgreeOn g G rest := by
  obtain ⟨hduration, h⟩ := agree_cons.mp h
  obtain ⟨hpre, h⟩ := agree_cons.mp h
  obtain ⟨hpost, h⟩ := agree_cons.mp h
  refine ⟨?_, h⟩
  simp only [recount, Slot.recount_congr hduration, SequenceNode.recount_congr hpre,
    SequenceNode.recount_congr hpost]

theorem SceneNode.recount_congr : ∀ {s : SceneNode}, (∀ j ∈ s.reports.numbers, G j = g j) →
    s.recount G = s.recount g
  | text f t, h => by
    obtain ⟨hown, hbelow⟩ := agree_mk.mp h
    obtain ⟨hframe, hrest⟩ := SceneFrame.recount_parts hbelow
    rw [hown] at hframe
    show text (f.recount G) (t.recount G) = text { f.recount g with emitted := g f.emitted } _
    rw [hframe, Slot.recount_congr (agree_singleton.mp hrest)]
  | video f source offset, h => by
    obtain ⟨hown, hbelow⟩ := agree_mk.mp h
    obtain ⟨hframe, hrest⟩ := SceneFrame.recount_parts hbelow
    obtain ⟨hsource, hrest⟩ := agree_cons.mp hrest
    rw [hown] at hframe
    show video (f.recount G) (source.recount G) (offset.recount G) =
      video { f.recount g with emitted := g f.emitted } _ _
    rw [hframe, Slot.recount_congr hsource, Slot.recount_congr (agree_singleton.mp hrest)]

theorem ActNode.recount_congr {n : ActNode} (h : ∀ j ∈ n.reports.numbers, G j = g j) :
    n.recount G = n.recount g := by
  obtain ⟨hown, hbelow⟩ := agree_mk.mp h
  simp only [recount, hown, ListEditor.recount_congr SceneNode.recount_congr
    (agree_singleton.mp hbelow)]

theorem Site.recount_congr : ∀ {s : Site} {p : s.Part}, (∀ j ∈ (s.reports p).numbers, G j = g j) →
    s.recount G p = s.recount g p
  | slot _, _, h => Slot.recount_congr h
  | node _, _, h => Node.recount_congr h
  | statement, _, h => StatementNode.recount_congr h
  | commands, _, h => ListEditor.recount_congr StatementNode.recount_congr h
  | sequence, _, h => SequenceNode.recount_congr h
  | scene, _, h => SceneNode.recount_congr h
  | scenes, _, h => ListEditor.recount_congr SceneNode.recount_congr h
  | act, _, h => ActNode.recount_congr h

/-! ## What is around a part -/

/-- What stands around the part a step leads to, on both sides of it. A part that counts one change
more than before differs from what it was in its own count and in what is put there. -/
structure Step.Around (step : Step a b) (p : a.Part) (before after : List Reports) : Prop where
  reports_put : ∀ q, a.reports (step.put q p) = .mk (a.emitted p) (before ++ b.reports q :: after)
  others : ∀ {b' : Site} {other : Step a b'} {q : b'.Part},
    (⟨b', other⟩ : Σ b, Step a b) ≠ ⟨b, step⟩ → other.get? p = some q →
      b'.reports q ∈ before ++ after
  announced : ∀ {g G : Nat → Nat}, G (a.emitted p) = g (a.emitted p) + 1 →
    AgreeOn g G (before ++ after) → ∀ (q : b.Part) (o : Origin),
      step.put q (a.recount G p) = a.announce (some o) (step.put q (a.recount g p))

/-! ### Lists -/

theorem map_set_take_drop {β : Type} (f : α → β) (xs : List α) {i : Nat} (hi : i < xs.length)
    (x : α) : (xs.set i x).map f = (xs.take i).map f ++ f x :: (xs.drop (i + 1)).map f := by
  rw [List.set_eq_take_append_cons_drop, if_pos hi, List.map_append, List.map_cons]

theorem mem_map_take_drop {β : Type} (f : α → β) {xs : List α} {i j : Nat} {x : α}
    (hx : xs[j]? = some x) (hij : j ≠ i) :
    f x ∈ (xs.take i).map f ++ (xs.drop (i + 1)).map f := by
  rw [← List.map_append]
  refine List.mem_map_of_mem (List.mem_append.mpr ?_)
  rcases Nat.lt_or_gt_of_ne hij with hlt | hgt
  · exact .inl (List.mem_of_getElem? ((List.getElem?_take_of_lt hlt).trans hx))
  · refine .inr (List.mem_of_getElem? (i := j - (i + 1)) ?_)
    rw [List.getElem?_drop, ← hx]
    congr 1
    omega

/-- Two ways of counting that agree on all entries but one differ in that one alone. -/
theorem map_recount_set {item : (Nat → Nat) → α → α} {reports : α → Reports}
    (hitem : ∀ {x : α}, (∀ j ∈ (reports x).numbers, G j = g j) → item G x = item g x)
    {xs : List α} {i : Nat}
    (h : AgreeOn g G ((xs.take i).map reports ++ (xs.drop (i + 1)).map reports)) (x : α) :
    (xs.map (item G)).set i x = (xs.map (item g)).set i x := by
  obtain ⟨hbefore, hafter⟩ := agree_append.mp h
  simp only [List.set_eq_take_append_cons_drop, List.length_map, ← List.map_take, ← List.map_drop,
    map_recount_congr hitem hbefore, map_recount_congr hitem hafter]
  split
  · rfl
  · rename_i hi
    have hall : xs.take i = xs := List.take_of_length_le (Nat.le_of_not_lt hi)
    rw [hall] at hbefore
    exact map_recount_congr hitem hbefore

/-! ### Scenes -/

/-- The contents of a scene, which other scenes do not have. -/
def SceneNode.contents : SceneNode → List Reports
  | text _ t => [t.reports]
  | video _ source offset => [source.reports, offset.reports]

theorem SceneFrame.announced {f : SceneFrame} {rest : List Reports}
    (hown : G f.emitted = g f.emitted + 1) (h : AgreeOn g G (f.duration.reports ::
      f.preCommands.reports :: f.postCommands.reports :: rest)) {o : Origin} :
    f.recount G = (f.recount g).announce (some o) ∧ AgreeOn g G rest := by
  obtain ⟨hframe, hrest⟩ := SceneFrame.recount_parts h
  rw [hown] at hframe
  exact ⟨hframe, hrest⟩

theorem SceneNode.recount_contents {s : SceneNode} (h : AgreeOn g G s.contents) (frame : SceneFrame) :
    (s.recount G).withFrame frame = (s.recount g).withFrame frame := by
  cases s with
  | text f t =>
    exact congrArg (SceneNode.text frame) (Slot.recount_congr (agree_singleton.mp h))
  | video f source offset =>
    obtain ⟨hsource, hoffset⟩ := agree_cons.mp h
    simp only [recount, withFrame, Slot.recount_congr hsource,
      Slot.recount_congr (agree_singleton.mp hoffset)]

theorem SceneNode.frame_recount (s : SceneNode) : (s.recount g).frame = s.frame.recount g := by
  cases s <;> rfl

theorem SceneNode.announce_withFrame (s : SceneNode) (frame : SceneFrame) (o : Option Origin) :
    (s.withFrame frame).announce o = s.withFrame (frame.announce o) := by
  cases s <;> rfl

/-- A scene whose frame alone was changed. -/
theorem SceneNode.announced_frame {s : SceneNode} (h : AgreeOn g G s.contents)
    {e : SceneFrame → SceneFrame} {o : Origin}
    (hframe : e (s.frame.recount G) = (e (s.frame.recount g)).announce (some o)) :
    (s.recount G).withFrame (e (s.recount G).frame) =
      ((s.recount g).withFrame (e (s.recount g).frame)).announce (some o) := by
  rw [SceneNode.recount_contents h, frame_recount, frame_recount, hframe, announce_withFrame]

theorem Step.exists_around_scene {step : Step .scene b} {p : SceneNode} {old : b.Part}
    (h : step.get? p = some old) : ∃ before after, step.Around p before after := by
  cases step with
  | duration =>
    refine ⟨[], p.frame.preCommands.reports :: p.frame.postCommands.reports :: p.contents,
      fun _ => by cases p <;> rfl, ?_, ?_⟩
    · intro b' other q hne hq
      cases p <;> cases other <;> first | exact absurd rfl hne |
        (cases hq <;> simp [SceneNode.contents, Site.reports, SceneNode.frame])
    · intro g G (hown : G p.frame.emitted = g p.frame.emitted + 1) hrest q o
      obtain ⟨hpre, hrest⟩ := agree_cons.mp hrest
      obtain ⟨hpost, hcontents⟩ := agree_cons.mp hrest
      refine SceneNode.announced_frame (e := ({ · with duration := q })) hcontents ?_
      simp only [SceneFrame.recount, SceneFrame.announce, countChange, hown,
        SequenceNode.recount_congr hpre, SequenceNode.recount_congr hpost]
      rfl
  | preCommands =>
    refine ⟨[p.frame.duration.reports], p.frame.postCommands.reports :: p.contents,
      fun _ => by cases p <;> rfl, ?_, ?_⟩
    · intro b' other q hne hq
      cases p <;> cases other <;> first | exact absurd rfl hne |
        (cases hq <;> simp [SceneNode.contents, Site.reports, SceneNode.frame])
    · intro g G (hown : G p.frame.emitted = g p.frame.emitted + 1) hrest q o
      obtain ⟨hduration, hrest⟩ := agree_cons.mp hrest
      obtain ⟨hpost, hcontents⟩ := agree_cons.mp hrest
      refine SceneNode.announced_frame (e := ({ · with preCommands := q })) hcontents ?_
      simp only [SceneFrame.recount, SceneFrame.announce, countChange, hown,
        Slot.recount_congr hduration, SequenceNode.recount_congr hpost]
      rfl
  | postCommands =>
    refine ⟨[p.frame.duration.reports, p.frame.preCommands.reports], p.contents,
      fun _ => by cases p <;> rfl, ?_, ?_⟩
    · intro b' other q hne hq
      cases p <;> cases other <;> first | exact absurd rfl hne |
        (cases hq <;> simp [SceneNode.contents, Site.reports, SceneNode.frame])
    · intro g G (hown : G p.frame.emitted = g p.frame.emitted + 1) hrest q o
      obtain ⟨hduration, hrest⟩ := agree_cons.mp hrest
      obtain ⟨hpre, hcontents⟩ := agree_cons.mp hrest
      refine SceneNode.announced_frame (e := ({ · with postCommands := q })) hcontents ?_
      simp only [SceneFrame.recount, SceneFrame.announce, countChange, hown,
        Slot.recount_congr hduration, SequenceNode.recount_congr hpre]
      rfl
  | text =>
    cases p with
    | video f source offset => cases h
    | text f t =>
      refine ⟨[f.duration.reports, f.preCommands.reports, f.postCommands.reports], [],
        fun _ => rfl, ?_, ?_⟩
      · intro b' other q hne hq
        cases other <;> first | exact absurd rfl hne |
          (cases hq <;> simp [Site.reports, SceneNode.frame])
      · intro g G (hown : G f.emitted = g f.emitted + 1) hrest q o
        exact congrArg (SceneNode.text · q) (SceneFrame.announced hown hrest).1
  | source =>
    cases p with
    | text f t => cases h
    | video f source offset =>
      refine ⟨[f.duration.reports, f.preCommands.reports, f.postCommands.reports],
        [offset.reports], fun _ => rfl, ?_, ?_⟩
      · intro b' other q hne hq
        cases other <;> first | exact absurd rfl hne |
          (cases hq <;> simp [Site.reports, SceneNode.frame])
      · intro g G (hown : G f.emitted = g f.emitted + 1) hrest q o
        obtain ⟨hframe, hoffset⟩ := SceneFrame.announced hown hrest
        show SceneNode.video (f.recount G) q (offset.recount G) =
          .video ((f.recount g).announce (some o)) q (offset.recount g)
        rw [hframe, Slot.recount_congr (agree_singleton.mp hoffset)]
  | offset =>
    cases p with
    | text f t => cases h
    | video f source offset =>
      refine ⟨[f.duration.reports, f.preCommands.reports, f.postCommands.reports,
        source.reports], [], fun _ => rfl, ?_, ?_⟩
      · intro b' other q hne hq
        cases other <;> first | exact absurd rfl hne |
          (cases hq <;> simp [Site.reports, SceneNode.frame])
      · intro g G (hown : G f.emitted = g f.emitted + 1) hrest q o
        obtain ⟨hframe, hsource⟩ := SceneFrame.announced hown hrest
        show SceneNode.video (f.recount G) (source.recount G) q =
          .video ((f.recount g).announce (some o)) (source.recount g) q
        rw [hframe, Slot.recount_congr (agree_singleton.mp hsource)]

/-! ### Every step -/

theorem Step.exists_around {step : Step a b} {p : a.Part} {old : b.Part}
    (h : step.get? p = some old) (ha : a ≠ .sequence) :
    ∃ before after, step.Around p before after := by
  cases step with
  | commands => exact absurd rfl ha
  | duration | preCommands | postCommands | text | source | offset => exact exists_around_scene h
  | occupant =>
    cases p with
    | empty frame => cases h
    | full frame node =>
      refine ⟨[], [], fun _ => rfl, ?_, ?_⟩
      · intro b' other q hne
        cases other
        exact absurd rfl hne
      · intro g G hown _ q o
        exact congrArg (fun n => Slot.full { frame with emitted := n } q) hown
  | op1 =>
    cases p with
    | number field n => cases h
    | operation o x y n =>
      refine ⟨[], [y.reports], fun _ => rfl, ?_, ?_⟩
      · intro b' other q hne hq
        cases other <;> first | exact absurd rfl hne |
          (cases hq; exact List.mem_singleton_self _)
      · intro g G (hown : G n = g n + 1) hrest q _
        show Node.operation o q (y.recount G) (G n) = .operation o q (y.recount g) (g n + 1)
        rw [Slot.recount_congr (agree_singleton.mp hrest), hown]
  | op2 =>
    cases p with
    | number field n => cases h
    | operation o x y n =>
      refine ⟨[x.reports], [], fun _ => rfl, ?_, ?_⟩
      · intro b' other q hne hq
        cases other <;> first | exact absurd rfl hne |
          (cases hq; exact List.mem_singleton_self _)
      · intro g G (hown : G n = g n + 1) hrest q _
        show Node.operation o (x.recount G) q (G n) = .operation o (x.recount g) q (g n + 1)
        rw [Slot.recount_congr (agree_singleton.mp hrest), hown]
  | titleVideo | collection | relatedVideo | value =>
    cases p <;> first
      | cases h
        done
      | refine ⟨[], [], fun _ => rfl, ?_, ?_⟩
        · intro b' other q hne
          cases other
          exact absurd rfl hne
        · intro g G hown _ q _
          first
            | exact congrArg (Node.title q) hown
            | exact congrArg (Node.random q) hown
            | exact congrArg (Node.related q) hown
            | exact congrArg (StatementNode.set _ q) hown
  | scenes =>
    refine ⟨[], [], fun _ => rfl, ?_, ?_⟩
    · intro b' other q hne
      cases other
      exact absurd rfl hne
    · intro g G hown _ q _
      exact congrArg (ActNode.mk q) hown
  | command i =>
    obtain ⟨hi, -⟩ := List.getElem?_eq_some_iff.mp h
    refine ⟨(p.items.take i).map StatementNode.reports,
      (p.items.drop (i + 1)).map StatementNode.reports, ?_, ?_, ?_⟩
    · intro q
      exact congrArg (Reports.mk p.gap.emitted) (map_set_take_drop _ p.items hi q)
    · intro b' other q hne hq
      cases other with
      | command j => exact mem_map_take_drop _ hq fun hij => hne (by rw [hij])
    · intro g G hown hrest q o
      exact congrArg₂ ListEditor.mk (map_recount_set StatementNode.recount_congr hrest q)
        (congrArg (fun n => { p.gap with emitted := n }) hown)
  | scene i =>
    obtain ⟨hi, -⟩ := List.getElem?_eq_some_iff.mp h
    refine ⟨(p.items.take i).map SceneNode.reports,
      (p.items.drop (i + 1)).map SceneNode.reports, ?_, ?_, ?_⟩
    · intro q
      exact congrArg (Reports.mk p.gap.emitted) (map_set_take_drop _ p.items hi q)
    · intro b' other q hne hq
      cases other with
      | scene j => exact mem_map_take_drop _ hq fun hij => hne (by rw [hij])
    · intro g G hown hrest q o
      exact congrArg₂ ListEditor.mk (map_recount_set SceneNode.recount_congr hrest q)
        (congrArg (fun n => { p.gap with emitted := n }) hown)

/-! ## One change more -/

theorem Node.announced : ∀ {f : Family} {n : Node f} {below : List Reports},
    n.reports = .mk n.emitted below → G n.emitted = g n.emitted + 1 → AgreeOn g G below →
      ∀ o : Origin, n.recount G = (n.recount g).announce (some o)
  | _, .number field n, _, _, hown, _, _ => congrArg (Node.number field) hown
  | _, .text field n, _, _, hown, _, _ => congrArg (Node.text field) hown
  | _, .url field n, _, _, hown, _, _ => congrArg (Node.url field) hown
  | _, .operation c x y n, _, rfl, hown, hbelow, _ => by
    obtain ⟨hx, hy⟩ := agree_cons.mp hbelow
    show Node.operation c (x.recount G) (y.recount G) (G n) = .operation c _ _ (g n + 1)
    rw [Slot.recount_congr hx, Slot.recount_congr (agree_singleton.mp hy)]
    exact congrArg (Node.operation c _ _) hown
  | _, .title v n, _, rfl, hown, hbelow, _ =>
    congrArg₂ Node.title (Slot.recount_congr (agree_singleton.mp hbelow)) hown
  | _, .random c n, _, rfl, hown, hbelow, _ =>
    congrArg₂ Node.random (Slot.recount_congr (agree_singleton.mp hbelow)) hown
  | _, .related v n, _, rfl, hown, hbelow, _ =>
    congrArg₂ Node.related (Slot.recount_congr (agree_singleton.mp hbelow)) hown

theorem Frame.announced {frame : Frame} (hown : G frame.emitted = g frame.emitted + 1)
    (o : Origin) : frame.recount G = (frame.recount g).announce (some o) :=
  congrArg (fun n => { frame with emitted := n }) hown

theorem ListEditor.announced {item : (Nat → Nat) → α → α} {reports : α → Reports}
    (hitem : ∀ {x : α}, (∀ j ∈ (reports x).numbers, G j = g j) → item G x = item g x)
    {l : ListEditor α} (hown : G l.gap.emitted = g l.gap.emitted + 1)
    (hbelow : AgreeOn g G (l.items.map reports)) (o : Origin) :
    l.recount G (item G) = (l.recount g (item g)).announce (some o) :=
  congrArg₂ ListEditor.mk (map_recount_congr hitem hbelow) (Frame.announced hown o)

/-- A part with a notifier of its own counts a change that nothing inside counts. -/
theorem Site.announced {p : s.Part} {below : List Reports} (hs : s ≠ .sequence)
    (hp : s.reports p = .mk (s.emitted p) below) (hown : G (s.emitted p) = g (s.emitted p) + 1)
    (hbelow : AgreeOn g G below) (o : Origin) :
    s.recount G p = s.announce (some o) (s.recount g p) := by
  cases s with
  | sequence => exact absurd rfl hs
  | node f => exact Node.announced hp hown hbelow o
  | slot f =>
    cases p with
    | empty frame => exact congrArg Slot.empty (Frame.announced hown o)
    | full frame node =>
      cases hp
      exact congrArg₂ Slot.full (Frame.announced hown o)
        (Node.recount_congr (agree_singleton.mp hbelow))
  | statement =>
    cases p with
    | get name n => exact congrArg (StatementNode.get name) hown
    | set name value n =>
      cases hp
      exact congrArg₂ (StatementNode.set name) (Slot.recount_congr (agree_singleton.mp hbelow)) hown
  | commands =>
    cases hp
    exact ListEditor.announced StatementNode.recount_congr hown hbelow o
  | scenes =>
    cases hp
    exact ListEditor.announced SceneNode.recount_congr hown hbelow o
  | scene =>
    cases p with
    | text f t =>
      cases hp
      obtain ⟨hframe, hrest⟩ := SceneFrame.announced (f := f) hown hbelow (o := o)
      exact congrArg₂ SceneNode.text hframe (Slot.recount_congr (agree_singleton.mp hrest))
    | video f source offset =>
      cases hp
      obtain ⟨hframe, hrest⟩ := SceneFrame.announced (f := f) hown hbelow (o := o)
      obtain ⟨hsource, hoffset⟩ := agree_cons.mp hrest
      show SceneNode.video (f.recount G) (source.recount G) (offset.recount G) =
        .video ((f.recount g).announce (some o)) (source.recount g) (offset.recount g)
      rw [hframe, Slot.recount_congr hsource, Slot.recount_congr (agree_singleton.mp hoffset)]
  | act =>
    cases hp
    exact congrArg₂ ActNode.mk (ListEditor.recount_congr SceneNode.recount_congr
      (agree_singleton.mp hbelow)) hown

/-! ## Flags -/

theorem Site.recount_setReadOnly (r : Bool) (s : Site) (p : s.Part) :
    s.recount g (s.setReadOnly r p) = s.setReadOnly r (s.recount g p) := by
  simp only [setReadOnly_eq, recount_eq, relabel_relabel]
  rfl

end SceneScript
