import Mathlib.Logic.Basic
import SceneScript.Notify.Forest
import SceneScript.Proofs.Editor.Relabeling

/-! The notifiers of a tree among others. A part announces at a notifier of its own, below that of
the part around it, and a new tree hangs its notifiers below that of its owner. What hangs there
disturbs nothing that was there before. -/

namespace SceneScript

/-- How often a part's notifier emitted, and the notifiers directly below it. -/
inductive Reports
  | mk (emitted : Nat) (below : List Reports)

mutual

def Node.reports : {f : Family} → Node f → Reports
  | _, .number _ n | _, .text _ n | _, .url _ n => .mk n []
  | _, .operation _ a b n => .mk n [a.reports, b.reports]
  | _, .title v n => .mk n [v.reports]
  | _, .random c n => .mk n [c.reports]
  | _, .related v n => .mk n [v.reports]

def Slot.reports : {f : Family} → Slot f → Reports
  | _, .empty frame => .mk frame.emitted []
  | _, .full frame node => .mk frame.emitted [node.reports]

end

def StatementNode.reports : StatementNode → Reports
  | get _ n => .mk n []
  | set _ value n => .mk n [value.reports]

def ListEditor.reports {α : Type} (item : α → Reports) (l : ListEditor α) : Reports :=
  .mk l.gap.emitted (l.items.map item)

/-- A command sequence announces at its list. -/
def SequenceNode.reports (s : SequenceNode) : Reports := s.commands.reports StatementNode.reports

def SceneNode.reports : SceneNode → Reports
  | text f t =>
    .mk f.emitted [f.duration.reports, f.preCommands.reports, f.postCommands.reports, t.reports]
  | video f source offset =>
    .mk f.emitted [f.duration.reports, f.preCommands.reports, f.postCommands.reports,
      source.reports, offset.reports]

def ActNode.reports (a : ActNode) : Reports :=
  .mk a.emitted [a.scenes.reports SceneNode.reports]

def Site.reports : (s : Site) → s.Part → Reports
  | slot _, p => p.reports
  | node _, p => p.reports
  | statement, p => p.reports
  | commands, p => p.reports StatementNode.reports
  | sequence, p => p.reports
  | scene, p => p.reports
  | scenes, p => p.reports SceneNode.reports
  | act, p => p.reports

/-! ## Flags and highlights -/

section Relabel

variable {m : Relabeling} (h : ∀ n, m.emitted n = n)

include h

mutual

theorem Node.reports_relabel : ∀ {f : Family} (n : Node f), (n.relabel m).reports = n.reports
  | _, .number _ n | _, .text _ n | _, .url _ n => congrArg (Reports.mk · []) (h n)
  | _, .operation _ x y _ => by
    simp only [Node.relabel, Node.reports, h]
    rw [x.reports_relabel, y.reports_relabel]
  | _, .title v _ | _, .related v _ => by
    simp only [Node.relabel, Node.reports, h]
    rw [v.reports_relabel]
  | _, .random c _ => by
    simp only [Node.relabel, Node.reports, h]
    rw [c.reports_relabel]

theorem Slot.reports_relabel : ∀ {f : Family} (s : Slot f), (s.relabel m).reports = s.reports
  | _, .empty frame => congrArg (Reports.mk · []) (h frame.emitted)
  | _, .full frame node =>
    congrArg₂ (Reports.mk · [·]) (h frame.emitted) node.reports_relabel

end

theorem StatementNode.reports_relabel : ∀ s : StatementNode, (s.relabel m).reports = s.reports
  | get _ n => congrArg (Reports.mk · []) (h n)
  | set _ value n => congrArg₂ (Reports.mk · [·]) (h n) (value.reports_relabel h)

theorem ListEditor.reports_relabel {α : Type} {reports : α → Reports} {item : α → α} {c : Category}
    (hitem : ∀ a, reports (item a) = reports a) (l : ListEditor α) :
    (l.relabel m c item).reports reports = l.reports reports := by
  simp only [ListEditor.reports, relabel, mapFlags, Frame.relabel, List.map_map,
    Function.comp_def, hitem, h]

theorem SequenceNode.reports_relabel (s : SequenceNode) : (s.relabel m).reports = s.reports :=
  s.commands.reports_relabel h (StatementNode.reports_relabel h)

theorem SceneNode.reports_relabel : ∀ s : SceneNode, (s.relabel m).reports = s.reports
  | text f t => by
    simp only [SceneNode.relabel, SceneFrame.relabel, reports, h]
    rw [f.duration.reports_relabel h, f.preCommands.reports_relabel h,
      f.postCommands.reports_relabel h, t.reports_relabel h]
  | video f source offset => by
    simp only [SceneNode.relabel, SceneFrame.relabel, reports, h]
    rw [f.duration.reports_relabel h, f.preCommands.reports_relabel h,
      f.postCommands.reports_relabel h, source.reports_relabel h, offset.reports_relabel h]

/-- Where the counts stay, so do the notifiers. -/
theorem Site.reports_relabel : ∀ (s : Site) (p : s.Part), s.reports (s.relabel m p) = s.reports p
  | slot _, p => p.reports_relabel h
  | node _, p => p.reports_relabel h
  | statement, p => p.reports_relabel h
  | commands, p => p.reports_relabel h (StatementNode.reports_relabel h)
  | sequence, p => p.reports_relabel h
  | scene, p => p.reports_relabel h
  | scenes, p => p.reports_relabel h (SceneNode.reports_relabel h)
  | act, p => congrArg₂ (Reports.mk · [·]) (h p.emitted)
    (p.scenes.reports_relabel h (SceneNode.reports_relabel h))

end Relabel

theorem Site.reports_setReadOnly (r : Bool) (s : Site) (p : s.Part) :
    s.reports (s.setReadOnly r p) = s.reports p := by
  rw [s.setReadOnly_eq]
  exact s.reports_relabel (fun _ => rfl) p

theorem Site.reports_highlight (wanted : Category → Bool) (s : Site) (p : s.Part) :
    s.reports (s.highlight wanted p) = s.reports p := by
  rw [s.highlight_eq]
  exact s.reports_relabel (fun _ => rfl) p

/-! ## Trees that announced nothing -/

inductive Reports.Silent : Reports → Prop
  | mk {below : List Reports} (h : ∀ r ∈ below, Silent r) : Silent (.mk 0 below)

theorem Reports.silent_leaf : Silent (.mk 0 []) := .mk (by simp)

/-! ## Hanging a tree below an owner -/

namespace Forest

/-- A new signal below another, with its count. -/
def addReporter (f : Forest) (owner emitted : Nat) : Forest :=
  match f.signals[owner]? with
  | some s => { f with signals := f.signals ++ [⟨owner :: s.above, [], emitted⟩] }
  | none => f

mutual

/-- Hangs the notifiers of a part below its owner. -/
def attach (f : Forest) (owner : Nat) : Reports → Forest
  | .mk emitted below => (f.addReporter owner emitted).attachAll f.size below

def attachAll (f : Forest) (owner : Nat) : List Reports → Forest
  | [] => f
  | r :: rs => (f.attach owner r).attachAll owner rs

end

/-- Signals were added, every one below the owner and silent, and nothing else changed. -/
def Grows (f : Forest) (owner : Nat) (g : Forest) : Prop :=
  ∃ new, g = ⟨f.signals ++ new, f.log⟩ ∧
    ∀ s ∈ new, s.emitted = 0 ∧ s.listeners = [] ∧ f.chain owner <:+ s.above

theorem Grows.refl (f : Forest) (owner : Nat) : f.Grows owner f := ⟨[], by simp, by simp⟩

theorem Grows.chain_eq {f g : Forest} {owner i : Nat} (h : f.Grows owner g) (hi : i < f.size) :
    g.chain i = f.chain i := by
  obtain ⟨new, rfl, -⟩ := h
  simp only [chain, List.getElem?_append_left hi]

theorem Grows.size_le {f g : Forest} {owner : Nat} (h : f.Grows owner g) : f.size ≤ g.size := by
  obtain ⟨new, rfl, -⟩ := h
  simp [size]

theorem Grows.trans {f g k : Forest} {owner inner : Nat} (hfg : f.Grows owner g)
    (hgk : g.Grows inner k) (h : f.chain owner <:+ g.chain inner) : f.Grows owner k := by
  obtain ⟨new, rfl, hnew⟩ := hfg
  obtain ⟨more, rfl, hmore⟩ := hgk
  refine ⟨new ++ more, by simp, fun s hs => ?_⟩
  rcases List.mem_append.mp hs with hs | hs
  · exact hnew s hs
  · obtain ⟨hemitted, hlisteners, habove⟩ := hmore s hs
    exact ⟨hemitted, hlisteners, h.trans habove⟩

theorem addReporter_grows {f : Forest} {owner : Nat} (h : owner < f.size) :
    f.Grows owner (f.addReporter owner 0) ∧
      (f.addReporter owner 0).chain f.size = f.size :: f.chain owner := by
  have hsignal : f.signals[owner]? = some f.signals[owner] := List.getElem?_eq_getElem h
  simp only [addReporter, hsignal]
  refine ⟨⟨_, rfl, ?_⟩, ?_⟩
  · simp [chain, hsignal]
  · simp [chain, hsignal, size]

mutual

theorem attach_grows : ∀ {r : Reports} {f : Forest} {owner : Nat}, r.Silent → owner < f.size →
    f.Grows owner (f.attach owner r)
  | .mk n below, f, owner, hr, h => by
    cases hr with
    | mk hbelow =>
      obtain ⟨hgrows, hchain⟩ := addReporter_grows h
      have hinner : f.size < (f.addReporter owner 0).size := by
        simp [addReporter, List.getElem?_eq_getElem h, size]
      refine hgrows.trans (attachAll_grows hbelow hinner) ?_
      rw [hchain]
      exact List.suffix_cons _ _

theorem attachAll_grows : ∀ {rs : List Reports} {f : Forest} {owner : Nat},
    (∀ r ∈ rs, r.Silent) → owner < f.size → f.Grows owner (f.attachAll owner rs)
  | [], f, owner, _, _ => Grows.refl f owner
  | r :: rs, f, owner, hrs, h => by
    have hfirst := attach_grows (hrs r (by simp)) h
    have hrest : (f.attach owner r).Grows owner ((f.attach owner r).attachAll owner rs) :=
      attachAll_grows (fun s hs => hrs s (by simp [hs])) (Nat.lt_of_lt_of_le h hfirst.size_le)
    have hchain : f.chain owner <:+ (f.attach owner r).chain owner :=
      (hfirst.chain_eq h).symm ▸ List.suffix_refl _
    exact hfirst.trans hrest hchain

end

end Forest

end SceneScript
