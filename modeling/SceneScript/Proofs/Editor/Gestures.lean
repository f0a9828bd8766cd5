import SceneScript.Proofs.Editor.Editing
import SceneScript.Proofs.Editor.Failure
import SceneScript.Proofs.Editor.Listing

/-! Drags one after the other. A drag is watched while it is carried out one statement at a time,
the components that are handed to targets included. Whatever is called, in any order, what is seen
is one gesture after the other: each is started, hands its component over at most once, and is
finished before the next one starts. -/

namespace SceneScript

open InPlace

/-! ## What a target fails with -/

theorem BuildsWith.error {α : Type} {names : List String} {x : Except EditorError α}
    {f : EditorError} (h : BuildsWith names x) (hx : x = .error f) :
    ∃ name, f = .unknownVariable name := by
  unfold BuildsWith at h
  cases hfind : names.find? (· ∉ variableNames) with
  | none =>
    rw [hfind] at h
    obtain ⟨a, ha⟩ := h
    cases ha.symm.trans hx
  | some name =>
    rw [hfind] at h
    cases h.symm.trans hx
    exact ⟨name, rfl⟩

theorem Target.acceptInPlace_result (t : Target) (part : t.Part) (c : Component) :
    (t.acceptInPlace c part).result = (t.accept part c).map fun _ => () := by
  rw [t.accept_performs c part]
  dsimp only
  cases t.accept part c <;> rfl

/-! ## Watching a drag -/

/-- What is seen of a drag: an event, or a component that is handed to a target, and how the target
ended. -/
inductive Moment
  | event (e : DragEvent)
  | handed (c : Component) (result : Except EditorError Unit)

def Moment.event? : Moment → Option DragEvent
  | event e => some e
  | handed _ _ => none

/-- A drag, and all that was seen of it. -/
structure Watched where
  payload : Option Payload
  moments : List Moment

namespace Watched

def idle : Watched := ⟨none, []⟩

/-- The drag without the targets it came to. -/
def drag (w : Watched) : Drag := ⟨w.payload, w.moments.filterMap Moment.event?⟩

def see (w : Watched) (m : Moment) : Watched := { w with moments := w.moments ++ [m] }

def emit (e : DragEvent) : InPlace EditorError Watched Unit := assign (see · (.event e))

def start (snapshot : Component) : InPlace EditorError Watched Unit := do
  if (← look).payload.isSome then
    fail .dragInProgress
  assign fun w => { w with payload := some (.encode snapshot) }
  emit (.started snapshot)

/-- There is no payload left afterwards, whether there was one or not. -/
def takePayload : InPlace EditorError Watched Payload := do
  let payload := (← look).payload
  assign fun w => { w with payload := none }
  ofResult (payload.elim (.error .noActiveDrag) .ok)

def cancel : InPlace EditorError Watched DragOutcome := do
  let _ ← takePayload
  emit (.finished (.cancelled .noTarget))
  return .cancelled .noTarget

def hand (t : Target) (part : t.Part) (c : Component) : InPlace EditorError Watched Unit := do
  let result := (t.acceptInPlace c part).result
  assign (see · (.handed c result))
  ofResult result

def resolve (p : Payload) (t : Target) (part : t.Part) :
    InPlace EditorError Watched DragOutcome := do
  if !t.isEnabled part then
    return .cancelled .readOnly
  if !t.dragEnter part p then
    return .cancelled .rejected
  let c ← ofResult p.decode
  hand t part c
  return .dropped

def dropOn (t : Target) (part : t.Part) : InPlace EditorError Watched DragOutcome := do
  let p ← takePayload
  let result ← attempt (resolve p t part)
  emit (.finished (result.toOption.getD (.cancelled .rejected)))
  ofResult result

/-- The payload is left alone unless there is a target to release it over. -/
def dropAt (s : Site) (tree : s.Part) (i : Nat) : InPlace EditorError Watched DragOutcome := do
  if !(← look).drag.isDragging then
    fail .noActiveDrag
  match s.target? tree i with
  | none => fail (.noSuchTarget i)
  | some l => dropOn l.place.target l.part

end Watched

/-- What can be called while nodes are dragged around, with whatever sources, targets and trees. -/
inductive Call
  | start (snapshot : Component)
  | dropOn (t : Target) (part : t.Part)
  | dropAt (s : Site) (tree : s.Part) (i : Nat)
  | cancel

namespace Call

def starts : Call → Bool
  | start _ => true
  | _ => false

/-- The drag after a call, and the reply; a start has no outcome. -/
def on : Call → Drag → Drag × Except EditorError (Option DragOutcome)
  | start c, d =>
    match d.start c with
    | .ok d => (d, .ok none)
    | .error e => (d, .error e)
  | dropOn t part, d => ((d.dropOn t part).1, (d.dropOn t part).2.map fun r => some r.1)
  | dropAt _ tree i, d => ((d.dropAt tree i).1, (d.dropAt tree i).2.map fun r => some r.1)
  | cancel, d =>
    match d.cancel with
    | .ok (d, outcome) => (d, .ok (some outcome))
    | .error e => (d, .error e)

/-- A call carried out while it is watched. -/
def watch : Call → InPlace EditorError Watched (Option DragOutcome)
  | start c => do
    Watched.start c
    return none
  | dropOn t part => return some (← Watched.dropOn t part)
  | dropAt s tree i => return some (← Watched.dropAt s tree i)
  | cancel => return some (← Watched.cancel)

end Call

def Drag.after (calls : List Call) : Drag := calls.foldl (fun d call => (call.on d).1) .idle

def Watched.after (calls : List Call) : Watched :=
  calls.foldl (fun w call => (call.watch w).state) .idle

/-! ## Gestures -/

/-- A gesture from its start to its end. What is handed over is what the payload is read as, only
what was taken has been dropped, and a target that fails counts as a rejection. -/
structure Gesture where
  snapshot : Component
  handed : Option (Component × Except EditorError Unit)
  outcome : DragOutcome
  decode_handed : ∀ c result, handed = some (c, result) →
    (Payload.encode snapshot).decode = .ok c
  dropped_iff : outcome = .dropped ↔ ∃ c, handed = some (c, .ok ())
  failed : ∀ c f, handed = some (c, .error f) →
    outcome = .cancelled .rejected ∧ ∃ name, f = .unknownVariable name

namespace Gesture

/-- What is seen of a gesture once it has started. -/
def ending (g : Gesture) : List Moment :=
  g.handed.toList.map (fun (c, result) => .handed c result) ++ [.event (.finished g.outcome)]

def moments (g : Gesture) : List Moment := .event (.started g.snapshot) :: g.ending

def events (g : Gesture) : List DragEvent := [.started g.snapshot, .finished g.outcome]

/-- The call that ends a gesture is answered with the outcome, or with what the target failed
with. -/
def reply (g : Gesture) : Except EditorError DragOutcome :=
  match g.handed with
  | some (_, .error f) => .error f
  | _ => .ok g.outcome

theorem events_ending (g : Gesture) :
    g.ending.filterMap Moment.event? = [.finished g.outcome] := by
  unfold ending
  cases g.handed <;> rfl

theorem events_moments (g : Gesture) : g.moments.filterMap Moment.event? = g.events :=
  congrArg (DragEvent.started g.snapshot :: ·) g.events_ending

/-- Ends without any target being handed something. -/
def refused (snapshot : Component) (reason : CancelReason) : Gesture where
  snapshot := snapshot
  handed := none
  outcome := .cancelled reason
  decode_handed := fun _ _ h => nomatch h
  dropped_iff := ⟨nofun, fun ⟨_, h⟩ => nomatch h⟩
  failed := fun _ _ h => nomatch h

section Asked

variable {snapshot c : Component} (h : (Payload.encode snapshot).decode = .ok c)

/-- Ends with a target that took the component. -/
def taken : Gesture where
  snapshot := snapshot
  handed := some (c, .ok ())
  outcome := .dropped
  decode_handed := fun c' result heq => by
    cases heq
    exact h
  dropped_iff := ⟨fun _ => ⟨c, rfl⟩, fun _ => rfl⟩
  failed := fun _ _ h => nomatch h

/-- Ends with a target that did not know a variable in the component. -/
def unknown (name : String) : Gesture where
  snapshot := snapshot
  handed := some (c, .error (.unknownVariable name))
  outcome := .cancelled .rejected
  decode_handed := fun c' result heq => by
    cases heq
    exact h
  dropped_iff := ⟨nofun, fun ⟨_, h⟩ => nomatch h⟩
  failed := fun c' f heq => by
    cases heq
    exact ⟨rfl, name, rfl⟩

end Asked

end Gesture

/-- The gestures that ended, and the component that is dragged now. -/
structure Gestures where
  past : List Gesture
  current : Option Component

namespace Gestures

def events (gs : Gestures) : List DragEvent :=
  gs.past.flatMap Gesture.events ++ gs.current.toList.map .started

/-- What is seen of one gesture after the other. -/
def watched (gs : Gestures) : Watched where
  payload := gs.current.map .encode
  moments := gs.past.flatMap Gesture.moments ++ gs.current.toList.map fun c => .event (.started c)

theorem drag_watched (gs : Gestures) : gs.watched.drag = ⟨gs.current.map .encode, gs.events⟩ := by
  have hpast : (gs.past.flatMap Gesture.moments).filterMap Moment.event? =
      gs.past.flatMap Gesture.events := by
    rw [List.filterMap_flatMap]
    simp only [Gesture.events_moments]
  have hcurrent : (gs.current.toList.map fun c => Moment.event (.started c)).filterMap
      Moment.event? = gs.current.toList.map .started := by
    cases gs.current <;> rfl
  unfold Watched.drag watched events
  rw [List.filterMap_append, hpast, hcurrent]

theorem watched_started (past : List Gesture) (c : Component) :
    Watched.mk (some (.encode c))
        ((Gestures.watched ⟨past, none⟩).moments ++ [.event (.started c)]) =
      Gestures.watched ⟨past, some c⟩ := by
  simp [watched]

theorem watched_ended (past : List Gesture) (g : Gesture) :
    Watched.mk none ((Gestures.watched ⟨past, some g.snapshot⟩).moments ++ g.ending) =
      Gestures.watched ⟨past ++ [g], none⟩ := by
  simp [watched, Gesture.moments]

/-- The last event is a start if and only if something is dragged, and it is of that. -/
theorem getLast?_events (gs : Gestures) (c : Component) :
    gs.events.getLast? = some (.started c) ↔ gs.current = some c := by
  obtain ⟨past, current⟩ := gs
  cases current with
  | some c' => simp [events]
  | none =>
    obtain rfl | ⟨before, g, rfl⟩ := past.eq_nil_or_concat
    · simp [events]
    · simp [events, Gesture.events]

end Gestures

/-! ## One call -/

namespace Watched

/-- A target is asked to take what the payload is read as, or it is not asked at all. -/
theorem resolve_run (p : Payload) (t : Target) (part : t.Part) (w : Watched) :
    (∃ reason, Drag.resolve p t part = .ok (.cancelled reason, ⟨part, none⟩) ∧
      resolve p t part w = ⟨.ok (.cancelled reason), w, []⟩) ∨
    ∃ c, p.decode = .ok c ∧ t.isAcceptable part c = true ∧
      Drag.resolve p t part = (t.accept part c).map (Prod.mk .dropped) ∧
      resolve p t part w = ⟨(t.accept part c).map fun _ => .dropped,
        w.see (.handed c ((t.accept part c).map fun _ => ())), []⟩ := by
  unfold resolve Drag.resolve
  cases henabled : t.isEnabled part with
  | false => exact .inl ⟨.readOnly, rfl, rfl⟩
  | true =>
    simp only [Bool.not_true, Bool.false_eq_true, if_false]
    cases henter : t.dragEnter part p with
    | false => exact .inl ⟨.rejected, rfl, rfl⟩
    | true =>
      simp only [Bool.not_true, Bool.false_eq_true, if_false]
      simp only [Target.dragEnter, Bool.and_eq_true] at henter
      cases hdecode : p.decode with
      | error e =>
        rw [hdecode] at henter
        cases henter.2
      | ok c =>
        rw [hdecode] at henter
        refine .inr ⟨c, rfl, henter.2, ?_, ?_⟩
        · rw [bind_ok]
          cases t.accept part c <;> rfl
        · rw [ok_bind]
          unfold hand
          rw [t.acceptInPlace_result part c]
          cases t.accept part c <;> rfl

/-- Whatever comes of the target, the payload is gone and one end is emitted. -/
theorem dropOn_of_resolve {p : Payload} {t : Target} {part : t.Part} {ms ms' : List Moment}
    {reply : Except EditorError DragOutcome}
    (h : resolve p t part ⟨none, ms⟩ = ⟨reply, ⟨none, ms'⟩, []⟩) :
    dropOn t part ⟨some p, ms⟩ = ⟨reply, ⟨none, ms' ++
      [.event (.finished (reply.toOption.getD (.cancelled .rejected)))]⟩, []⟩ := by
  have hdrop : dropOn t part ⟨some p, ms⟩ = (attempt (resolve p t part) >>= fun result => do
      emit (.finished (result.toOption.getD (.cancelled .rejected)))
      ofResult result) ⟨none, ms⟩ := rfl
  rw [hdrop, attempt_bind, h]
  rfl

theorem drag_ended (ms : List Moment) (g : Gesture) :
    drag ⟨none, ms ++ g.ending⟩ = (drag ⟨none, ms⟩).finish g.outcome := by
  unfold drag Drag.finish
  rw [List.filterMap_append, g.events_ending]

/-- A release ends the gesture whatever the target does, and tells what that was. -/
theorem dropOn_run (snapshot : Component) (ms : List Moment) (t : Target) (part : t.Part) :
    ∃ g : Gesture, g.snapshot = snapshot ∧
      dropOn t part ⟨some (.encode snapshot), ms⟩ = ⟨g.reply, ⟨none, ms ++ g.ending⟩, []⟩ ∧
      (Call.dropOn t part).on (drag ⟨some (.encode snapshot), ms⟩) =
        (drag ⟨none, ms ++ g.ending⟩, g.reply.map some) := by
  simp only [drag_ended]
  unfold Call.on Drag.dropOn
  dsimp only [drag]
  obtain ⟨reason, hdrag, hrun⟩ | ⟨c, hdecode, hacceptable, hdrag, hrun⟩ :=
    resolve_run (.encode snapshot) t part ⟨none, ms⟩
  · rw [hdrag, dropOn_of_resolve hrun]
    exact ⟨.refused snapshot reason, rfl, rfl, rfl⟩
  · rw [hdrag, dropOn_of_resolve hrun, List.append_assoc]
    cases haccept : t.accept part c with
    | ok e => exact ⟨.taken hdecode, rfl, rfl, rfl⟩
    | error f =>
      obtain ⟨name, rfl⟩ :=
        (Target.buildsWith_accept (Bool.and_eq_true_iff.mp hacceptable).2 part).error haccept
      exact ⟨.unknown hdecode name, rfl, rfl, rfl⟩

end Watched

/-- Whether a call ends the gesture that is going on. A release by number needs a target there. -/
def Call.ends : Call → Prop
  | start _ => False
  | dropAt s tree i => i < (s.targets tree).length
  | dropOn _ _ | cancel => True

/-- How a call is answered, and what it makes of the gestures. -/
inductive Call.Gives : Gestures → Call → Except EditorError (Option DragOutcome) → Gestures → Prop
  | started (past : List Gesture) (c : Component) :
    Gives ⟨past, none⟩ (.start c) (.ok none) ⟨past, some c⟩
  | inProgress (past : List Gesture) (snapshot c : Component) :
    Gives ⟨past, some snapshot⟩ (.start c) (.error .dragInProgress) ⟨past, some snapshot⟩
  | notActive (past : List Gesture) (call : Call) (hcall : call.starts = false) :
    Gives ⟨past, none⟩ call (.error .noActiveDrag) ⟨past, none⟩
  | noTarget (past : List Gesture) (snapshot : Component) (s : Site) (tree : s.Part) (i : Nat)
    (hi : (s.targets tree).length ≤ i) :
    Gives ⟨past, some snapshot⟩ (.dropAt s tree i) (.error (.noSuchTarget i)) ⟨past, some snapshot⟩
  | ended (past : List Gesture) (call : Call) (hcall : call.ends) (g : Gesture) :
    Gives ⟨past, some g.snapshot⟩ call (g.reply.map some) ⟨past ++ [g], none⟩

/-- Carried out while it is watched, a call leaves the drag and the reply that it is said to leave,
and makes of the gestures what it may. -/
def Call.Steps (call : Call) (gs : Gestures) : Prop :=
  ∃ reply gs', call.watch gs.watched = ⟨reply, gs'.watched, []⟩ ∧
    call.on gs.watched.drag = (gs'.watched.drag, reply) ∧ call.Gives gs reply gs'

theorem Site.target?_eq_none {s : Site} {tree : s.Part} {i : Nat} :
    s.target? tree i = none ↔ (s.targets tree).length ≤ i := by
  rw [← List.getElem?_eq_none_iff, s.targets_getElem?, Option.map_eq_none_iff]

theorem InPlace.return_some {ε σ α : Type} {x : InPlace ε σ α} {s s' : σ} {r : Except ε α}
    (h : x s = ⟨r, s', []⟩) :
    (x >>= fun a => pure (some a)) s = ⟨r.map some, s', []⟩ := by
  cases r with
  | ok a => exact bind_of_ok h _
  | error e => exact bind_of_error h _

/-- Over a target that is there, a release by number is a release over that target. -/
theorem Call.on_dropAt {s : Site} {tree : s.Part} {i : Nat} {l : s.Located}
    (hl : s.target? tree i = some l) {drag : Drag} (hdragging : drag.isDragging = true) :
    (dropAt s tree i).on drag = (dropOn l.place.target l.part).on drag := by
  simp only [on, Drag.dropAt, hdragging, hl, Bool.not_true, Bool.false_eq_true, if_false,
    Drag.dropAtPlace]
  rcases drag.dropOn l.place.target l.part with ⟨after, e | r⟩ <;> rfl

theorem Call.steps_idle (call : Call) (past : List Gesture) : call.Steps ⟨past, none⟩ := by
  cases call with
  | start c =>
    refine ⟨.ok none, ⟨past, some c⟩, ?_, ?_, .started past c⟩
    · rw [← Gestures.watched_started]
      rfl
    · rw [← Gestures.watched_started]
      unfold on Drag.start Watched.drag
      rw [List.filterMap_append]
      rfl
  | dropOn | dropAt | cancel => exact ⟨_, ⟨past, none⟩, rfl, rfl, .notActive past _ rfl⟩

theorem Call.steps_dragging (call : Call) (past : List Gesture) (snapshot : Component) :
    call.Steps ⟨past, some snapshot⟩ := by
  cases call with
  | start c => exact ⟨_, ⟨past, some snapshot⟩, rfl, rfl, .inProgress past snapshot c⟩
  | cancel =>
    have hends : Call.cancel.ends := trivial
    let g := Gesture.refused snapshot .noTarget
    refine ⟨g.reply.map some, ⟨past ++ [g], none⟩, ?_, ?_, .ended past _ hends g⟩
    · rw [← Gestures.watched_ended]
      rfl
    · rw [← Gestures.watched_ended, Watched.drag_ended]
      rfl
  | dropOn t part =>
    have hends : (Call.dropOn t part).ends := trivial
    obtain ⟨g, rfl, hrun, hon⟩ := Watched.dropOn_run snapshot
      (Gestures.watched ⟨past, some snapshot⟩).moments t part
    rw [Gestures.watched_ended past] at hrun hon
    exact ⟨_, _, return_some hrun, hon, .ended past _ hends g⟩
  | dropAt s tree i =>
    cases hl : s.target? tree i with
    | none =>
      have hi := Site.target?_eq_none.mp hl
      have hmissing : Watched.dropAt s tree i (Gestures.watched ⟨past, some snapshot⟩) =
          ⟨.error (.noSuchTarget i), Gestures.watched ⟨past, some snapshot⟩, []⟩ := by
        simp only [Watched.dropAt, look_bind, hl]
        rfl
      refine ⟨_, _, return_some hmissing, ?_, .noTarget past snapshot s tree i hi⟩
      simp only [on, Drag.dropAt, hl]
      rfl
    | some l =>
      have hends : (Call.dropAt s tree i).ends := by
        refine Nat.lt_of_not_le fun hle => ?_
        rw [Site.target?_eq_none.mpr hle] at hl
        cases hl
      obtain ⟨g, rfl, hrun, hon⟩ :=
        Watched.dropOn_run snapshot
        (Gestures.watched ⟨past, some snapshot⟩).moments l.place.target l.part
      rw [Gestures.watched_ended past] at hrun hon
      have hthere : Watched.dropAt s tree i (Gestures.watched ⟨past, some g.snapshot⟩) =
          ⟨g.reply, Gestures.watched ⟨past ++ [g], none⟩, []⟩ := by
        simp only [Watched.dropAt, look_bind, hl]
        exact hrun
      exact ⟨_, _, return_some hthere, (on_dropAt hl rfl).trans hon, .ended past _ hends g⟩

/-- Whatever is called next, it goes one step on. -/
theorem Call.steps (call : Call) (gs : Gestures) : call.Steps gs := by
  obtain ⟨past, current⟩ := gs
  cases current with
  | none => exact call.steps_idle past
  | some snapshot => exact call.steps_dragging past snapshot

/-! ## Any calls -/

/-- Whatever was called, what was seen is one gesture after the other. -/
theorem Watched.after_shows (calls : List Call) :
    ∃ gs : Gestures, Watched.after calls = gs.watched ∧ Drag.after calls = gs.watched.drag := by
  have hrun : ∀ gs : Gestures, ∃ gs' : Gestures,
      calls.foldl (fun w call => (call.watch w).state) gs.watched = gs'.watched ∧
      calls.foldl (fun d call => (call.on d).1) gs.watched.drag = gs'.watched.drag := by
    induction calls with
    | nil => exact fun gs => ⟨gs, rfl, rfl⟩
    | cons call calls ih =>
      intro gs
      obtain ⟨reply, gs', hwatch, hon, -⟩ := call.steps gs
      rw [List.foldl_cons, List.foldl_cons, hwatch, hon]
      exact ih gs'
  exact hrun ⟨[], none⟩

theorem Gesture.reply_error {g : Gesture} {f : EditorError} (h : g.reply.map some = .error f) :
    ∃ c name, f = .unknownVariable name ∧ g.ending =
      [.handed c (.error f), .event (.finished (.cancelled .rejected))] := by
  unfold reply at h
  split at h
  · rename_i c e hhanded
    cases h
    obtain ⟨hrejected, name, hname⟩ := g.failed c f hhanded
    refine ⟨c, name, hname, ?_⟩
    unfold ending
    rw [hhanded, hrejected]
    rfl
  · cases h

theorem Call.starts_of_ends {call : Call} (h : call.ends) : call.starts = false := by
  cases call with
  | start c => cases h
  | dropOn | dropAt | cancel => rfl

namespace Call.Gives

variable {gs gs' : Gestures} {call : Call} {reply : Except EditorError (Option DragOutcome)}

theorem inProgress_iff (h : call.Gives gs reply gs') : reply = .error .dragInProgress ↔
    call.starts = true ∧ gs.current.isSome = true := by
  cases h with
  | started | inProgress | noTarget => simp [starts]
  | notActive _ _ hcall => simp [hcall]
  | ended past _ hends g =>
    simp only [starts_of_ends hends, Bool.false_eq_true, false_and, iff_false]
    intro herror
    obtain ⟨c, name, hname, -⟩ := Gesture.reply_error herror
    cases hname

theorem notActive_iff (h : call.Gives gs reply gs') : reply = .error .noActiveDrag ↔
    call.starts = false ∧ gs.current.isSome = false := by
  cases h with
  | started | inProgress | noTarget => simp [starts]
  | notActive _ _ hcall => simp [hcall]
  | ended past _ hends g =>
    simp only [Option.isSome_some, Bool.true_eq_false, and_false, iff_false]
    intro herror
    obtain ⟨c, name, hname, -⟩ := Gesture.reply_error herror
    cases hname

theorem unchanged (h : call.Gives gs reply gs')
    (hreply : reply = .error .dragInProgress ∨ reply = .error .noActiveDrag) : gs' = gs := by
  cases h with
  | inProgress | notActive | noTarget => rfl
  | started => rcases hreply with hreply | hreply <;> cases hreply
  | ended past _ hends g =>
    rcases hreply with hreply | hreply
    all_goals
      obtain ⟨c, name, hname, -⟩ := Gesture.reply_error hreply
      cases hname

theorem pastLast {s : Site} {tree : s.Part} {i : Nat} (h : (dropAt s tree i).Gives gs reply gs')
    (hi : (s.targets tree).length ≤ i) (hdragging : gs.current.isSome = true) :
    reply = .error (.noSuchTarget i) ∧ gs' = gs := by
  cases h with
  | notActive => cases hdragging
  | noTarget => exact ⟨rfl, rfl⟩
  | ended past _ hends g => exact absurd hends (Nat.not_lt_of_le hi)

theorem ends_one (h : call.Gives gs reply gs') (hends : call.ends)
    (hdragging : gs.current.isSome = true) : ∃ g : Gesture, reply = g.reply.map some ∧
      gs'.watched = ⟨none, gs.watched.moments ++ g.ending⟩ := by
  cases h with
  | started | notActive => cases hdragging
  | inProgress => cases hends
  | noTarget _ _ s tree i hi => exact absurd hends (Nat.not_lt_of_le hi)
  | ended past _ _ g => exact ⟨g, rfl, (Gestures.watched_ended past g).symm⟩

theorem failed (h : call.Gives gs reply gs') (hends : call.ends)
    (hdragging : gs.current.isSome = true) {f : EditorError} (hreply : reply = .error f) :
    ∃ c, gs'.watched = ⟨none, gs.watched.moments ++
      [.handed c (.error f), .event (.finished (.cancelled .rejected))]⟩ := by
  obtain ⟨g, rfl, hstate⟩ := h.ends_one hends hdragging
  obtain ⟨c, name, -, hending⟩ := Gesture.reply_error hreply
  exact ⟨c, hending ▸ hstate⟩

end Call.Gives

/-- How the next call is answered, and what it does to the drag and to what is seen. -/
structure Call.Answers (call : Call) (w : Watched) : Prop where
  on : call.on w.drag = ((call.watch w).state.drag, (call.watch w).result)
  inProgress : (call.watch w).result = .error .dragInProgress ↔
    call.starts = true ∧ w.drag.isDragging = true
  notActive : (call.watch w).result = .error .noActiveDrag ↔
    call.starts = false ∧ w.drag.isDragging = false
  unchanged : (call.watch w).result = .error .dragInProgress ∨
    (call.watch w).result = .error .noActiveDrag → (call.watch w).state = w
  pastLast : ∀ (s : Site) (tree : s.Part) (i : Nat), call = .dropAt s tree i →
    (s.targets tree).length ≤ i → w.drag.isDragging = true →
      (call.watch w).result = .error (.noSuchTarget i) ∧ (call.watch w).state = w
  ended : call.ends → w.drag.isDragging = true → ∃ g : Gesture,
    (call.watch w).result = g.reply.map some ∧
      (call.watch w).state = ⟨none, w.moments ++ g.ending⟩
  /-- What ends a gesture ends it even if it fails, and then it is the target that failed. -/
  failed : ∀ f, call.ends → w.drag.isDragging = true → (call.watch w).result = .error f →
    ∃ c, (call.watch w).state =
      ⟨none, w.moments ++ [.handed c (.error f), .event (.finished (.cancelled .rejected))]⟩

theorem Call.answers (call : Call) (gs : Gestures) : call.Answers gs.watched := by
  obtain ⟨reply, gs', hwatch, hon, hgives⟩ := call.steps gs
  have hdragging : gs.watched.drag.isDragging = gs.current.isSome := Option.isSome_map
  constructor
  case on =>
    rw [hwatch]
    exact hon
  case inProgress =>
    rw [hwatch, hdragging]
    exact hgives.inProgress_iff
  case notActive =>
    rw [hwatch, hdragging]
    exact hgives.notActive_iff
  case unchanged =>
    rw [hwatch]
    exact fun hreply => congrArg Gestures.watched (hgives.unchanged hreply)
  case pastLast =>
    rintro s tree i rfl hi hd
    rw [hdragging] at hd
    rw [hwatch]
    exact (hgives.pastLast hi hd).imp_right (congrArg Gestures.watched)
  case ended =>
    intro hends hd
    rw [hdragging] at hd
    rw [hwatch]
    exact hgives.ends_one hends hd
  case failed =>
    intro f hends hd hreply
    rw [hdragging] at hd
    rw [hwatch] at hreply ⊢
    exact hgives.failed hends hd hreply

/-- Whatever is called, a listener hears of one gesture after the other: each start is followed by
the end of that gesture. A payload is there from the start to the end, and is handed to one target
at most; the gesture ended in a drop if and only if that target took it. -/
theorem Drag.gestures_bracketed (calls : List Call) :
    ∃ gs : Gestures, Watched.after calls = gs.watched ∧
      (Watched.after calls).drag = Drag.after calls ∧ (Drag.after calls).events = gs.events ∧
      ((Drag.after calls).isDragging = true ↔
        ∃ c, (Drag.after calls).events.getLast? = some (.started c)) ∧
      (∀ c, (Drag.after calls).events.getLast? = some (.started c) →
        (Drag.after calls).payload = some (.encode c)) ∧
      ∀ call : Call, call.Answers (Watched.after calls) := by
  obtain ⟨gs, hwatched, hdrag⟩ := Watched.after_shows calls
  rw [hwatched, hdrag, gs.drag_watched]
  refine ⟨gs, rfl, rfl, rfl, ?_, ?_, fun call => call.answers gs⟩
  · simp only [Drag.isDragging, Option.isSome_map, Option.isSome_iff_exists, gs.getLast?_events]
  · intro c hc
    rw [gs.getLast?_events] at hc
    rw [hc]
    rfl

end SceneScript
