import Mathlib.Data.List.Induction
import SceneScript.Proofs.Editor.Moves
import SceneScript.Proofs.Notify.Relays

/-! Trees that own their notifiers. A tree is built below an owner and moved about; each part has a
notifier of its own from then on, linked to those of the parts around it. Nobody else knows of these
notifiers, so that a notifier counts the mutations made at its part or below it, from when it was
made. -/

namespace SceneScript

open Reports

variable {a b c s t : Site} {f g k : Forest} {base owner : Nat}

/-! ## Runs -/

/-- A tree, and the notifiers its parts announce at among others. -/
structure Live (s : Site) where
  part : s.Part
  forest : Forest

namespace Live

/-- The tree with the counts of its notifiers. -/
def tree (l : Live s) : s.Part := s.recount l.forest.emittedAt l.part

/-- Makes a move, and tells the notifier of the part where it was made; a move that fails leaves
everything as it was. There is nothing if the listeners never return. -/
def step (l : Live s) (m : Move s) : Option (Live s) :=
  match m.wire l.part l.forest with
  | .error _ => some l
  | .ok ⟨p, f, none⟩ => some ⟨p, f⟩
  | .ok ⟨p, f, some (n, o)⟩ => (f.notify n o).map (⟨p, ·⟩)

def run (l : Live s) (moves : List (Move s)) : Option (Live s) := moves.foldlM step l

/-- The part at the end of a path is there and has this notifier. -/
def Has (l : Live s) (x : Path s b) (n : Nat) : Prop :=
  ∃ q, x.get? l.part = some q ∧ b.emitted q = n

/-- The part at the end of a path has the notifier that it got when these moves were made. It was
built with the tree, or the last of them has made it, and its notifier is none of those that were
there before. -/
def Made (l : Live s) (moves : List (Move s)) (x : Path s b) (n : Nat) : Prop :=
  (∃ after, l.run moves = some after ∧ after.Has x n) ∧
    ∀ earlier m before, moves = earlier ++ [m] → l.run earlier = some before →
      before.forest.size ≤ n

end Live

namespace Move

/-- Whether a move mutates a tree at a part or below it. -/
def reaches (m : Move s) (x : Path s b) (p : s.Part) : Bool :=
  (m.mutation? p).any fun way => decide (x.steps <+: way.path.steps)

/-- How many moves of a run mutate the tree at a part or below it. -/
def mutations (x : Path s b) : List (Move s) → s.Part → Nat
  | [], _ => 0
  | m :: moves, p => (m.reaches x p).toNat + mutations x moves (m.tree p)

theorem run_append (earlier later : List (Move s)) (p : s.Part) :
    run (earlier ++ later) p = run later (run earlier p) := List.foldl_append

theorem mutations_append (x : Path s b) (later : List (Move s)) : ∀ (earlier : List (Move s))
    (p : s.Part), mutations x (earlier ++ later) p =
      mutations x earlier p + mutations x later (run earlier p)
  | [], p => (Nat.zero_add _).symm
  | m :: earlier, p => by
    simp only [List.cons_append, mutations, mutations_append x later earlier (m.tree p)]
    rw [Nat.add_assoc]
    rfl

end Move

/-! ## Growing forests -/

namespace Forest

theorem Grows.signals_of_lt {i : Nat} (h : f.Grows owner g) (hi : i < f.size) :
    g.signals[i]? = f.signals[i]? := by
  obtain ⟨new, rfl, -⟩ := h
  exact List.getElem?_append_left hi

theorem Grows.signals_of_le {i : Nat} {signal : Signal} (h : f.Grows owner g) (hi : f.size ≤ i)
    (hsignal : g.signals[i]? = some signal) : signal.emitted = 0 ∧ signal.listeners = [] := by
  obtain ⟨new, rfl, hnew⟩ := h
  rw [List.getElem?_append_right hi] at hsignal
  obtain ⟨hemitted, hlisteners, -⟩ := hnew signal (List.mem_of_getElem? hsignal)
  exact ⟨hemitted, hlisteners⟩

theorem Grows.emittedAt_eq (h : f.Grows owner g) (j : Nat) : g.emittedAt j = f.emittedAt j := by
  rcases Nat.lt_or_ge j f.size with hj | hj
  · unfold emittedAt
    rw [h.signals_of_lt hj]
  · rw [emittedAt_of_size_le hj]
    unfold emittedAt
    cases hsignal : g.signals[j]? with
    | none => rfl
    | some signal => exact (h.signals_of_le hj hsignal).1

theorem Grows.mem_listeners {i : Nat} {l : Listener} (h : f.Grows owner g)
    (hl : l ∈ g.listeners i) : l ∈ f.listeners i := by
  rcases Nat.lt_or_ge i f.size with hi | hi
  · unfold listeners at hl ⊢
    rwa [h.signals_of_lt hi] at hl
  · unfold listeners at hl
    cases hsignal : g.signals[i]? with
    | none =>
      rw [hsignal] at hl
      cases hl
    | some signal =>
      rw [hsignal] at hl
      have hnone : signal.listeners = [] := (h.signals_of_le hi hsignal).2
      have hl : l ∈ signal.listeners := hl
      rw [hnone] at hl
      cases hl

theorem Grows.isPrivate (h : f.Grows owner g) (hf : f.Private base) (hbase : base ≤ f.size) :
    g.Private base where
  above := by
    intro i hi
    rw [h.chain_eq (Nat.lt_of_lt_of_le hi hbase)]
    exact hf.above i hi
  unheard := by
    intro i hi
    refine List.eq_nil_iff_forall_not_mem.mpr fun l hl => ?_
    have hold := h.mem_listeners hl
    rw [hf.unheard i hi] at hold
    cases hold
  known := fun i l hl => hf.known i l (h.mem_listeners hl)

theorem Grows.quiet (h : f.Grows owner g) (hf : f.Quiet) : g.Quiet :=
  fun i l hl => hf i l (h.mem_listeners hl)

end Forest

/-! ## One move -/

namespace Live

/-- The notifiers of a tree hang below its owner, and nobody else knows of them. -/
structure Sound (base owner : Nat) (l : Live s) : Prop where
  owner_lt : owner < base
  base_le : base ≤ l.forest.size
  hangs : s.Hangs l.forest owner l.part
  own : ∀ j ∈ (s.reports l.part).numbers, base ≤ j
  isPrivate : l.forest.Private base

/-- A move does nothing, or it is made at one place and the notifier there is told. -/
theorem step_cases {l l' : Live s} {m : Move s}
    (h : ∀ j ∈ (s.reports l.part).numbers, j < l.forest.size) (hstep : l.step m = some l') :
    (l' = l ∧ m.tree l.tree = l.tree ∧ m.mutation? l.tree = none) ∨
    ∃ (way : Way s) (n : Nat) (o : Origin) (e : Edited s.Part) (g : Forest),
      Relinks l.forest way.path n o l.part e g l'.part ∧ g.notify n o = some l'.forest ∧
        m.tree l.tree = e.part ∧ m.mutation? l.tree = some way := by
  have hmirrors : Rewired.Mirrors l.forest l.part _ (m.on l.tree) (m.wire l.part l.forest) :=
    m.mirrors h
  have hmutation := m.mutation?_eq l.tree
  unfold step at hstep
  unfold Move.tree
  generalize m.on l.tree = plain at hmirrors hmutation ⊢
  generalize m.wire l.part l.forest = linked at hmirrors hstep
  cases hmirrors with
  | refused e => exact .inl ⟨(Option.some.inj hstep).symm, rfl, hmutation⟩
  | silent => exact .inl ⟨(Option.some.inj hstep).symm, rfl, hmutation⟩
  | told hrelinks =>
    obtain ⟨k, hnotify, hlive⟩ := Option.map_eq_some_iff.mp hstep
    subst hlive
    refine .inr ⟨_, _, _, _, _, hrelinks, hnotify, rfl, hmutation.trans ?_⟩
    show Option.map (fun _ => m.way (s.recount l.forest.emittedAt l.part)) _ = _
    rw [hrelinks.origin, m.way_recount]
    rfl

end Live

/-- What the forest counts when the notifier is told where an edit was made. -/
structure Relinks.Told (base : Nat) (is : List Nat) (f g k : Forest) : Prop where
  size_le : f.size ≤ k.size
  chain : ∀ i, k.chain i = g.chain i
  emitted : ∀ j, base ≤ j → j < k.size → k.emittedAt j = f.emittedAt j + is.count j
  isPrivate : k.Private base

theorem Relinks.told {path : Path s t} {n : Nat} {o : Origin} {p p' : s.Part} {e : Edited s.Part}
    (h : Relinks f path n o p e g p') (hf : f.Private base) (hbase : base ≤ f.size)
    (howner : owner < base) (hp : s.Hangs f owner p) (hk : g.notify n o = some k) :
    Told base (n :: path.enclosing p) f g k := by
  obtain ⟨q, hq, rfl⟩ := h.place
  have hchain := Path.chain_eq hq hp.linked
  have hn : t.emitted q < f.size := Forest.lt_size_of_chain hchain
  have hcounted := Forest.counted_notify (h.grows.isPrivate hf hbase) hk
  rw [h.grows.chain_eq hn, hchain] at hcounted
  refine ⟨hcounted.size.symm ▸ h.grows.size_le, hcounted.chain, fun j hj hlt => ?_,
    hcounted.isPrivate⟩
  have hout : (f.chain owner).count j = 0 := List.count_eq_zero.mpr fun hmem =>
    Nat.not_lt_of_le hj (hf.above owner howner j hmem)
  rw [hcounted.emitted j hj (hcounted.size ▸ hlt), h.grows.emittedAt_eq, List.count_append, hout,
    Nat.add_zero]

namespace Live

/-- What becomes of a tree and its notifiers in one move. -/
structure Advances (base owner : Nat) (l : Live s) (m : Move s) (l' : Live s) : Prop where
  sound : l'.Sound base owner
  size_le : l.forest.size ≤ l'.forest.size
  chain_eq : ∀ i < l.forest.size, l'.forest.chain i = l.forest.chain i
  tree_eq : l'.tree = m.tree l.tree
  kept : ∀ {c : Site} {x : Path s c} {n : Nat}, l'.Has x n → l.Has x n ∨ l.forest.size ≤ n
  counted : ∀ {c : Site} {x : Path s c} {n : Nat}, l.Has x n →
    l'.forest.emittedAt n = l.forest.emittedAt n + (m.reaches x l.tree).toNat
  fresh : ∀ {c : Site} {x : Path s c} {n : Nat}, l'.Has x n → l.forest.size ≤ n →
    l'.forest.emittedAt n = 0

theorem Sound.lt_size {l : Live s} (h : l.Sound base owner) :
    ∀ j ∈ (s.reports l.part).numbers, j < l.forest.size := h.hangs.linked.lt_size

theorem Has.mem {l : Live s} {x : Path s c} {n : Nat} (h : l.Has x n) :
    n ∈ (s.reports l.part).numbers := by
  obtain ⟨q, hq, rfl⟩ := h
  exact Path.emitted_mem hq

/-- Nothing is counted where nothing is mutated. -/
theorem Sound.advances_still {l : Live s} (h : l.Sound base owner) {m : Move s}
    (htree : m.tree l.tree = l.tree) (hmutation : m.mutation? l.tree = none) :
    Advances base owner l m l where
  sound := h
  size_le := Nat.le_refl _
  chain_eq := fun _ _ => rfl
  tree_eq := htree.symm
  kept := .inl
  counted := by
    intro c x n hx
    unfold Move.reaches
    rw [hmutation]
    rfl
  fresh := fun hx hle => absurd (h.lt_size _ hx.mem) (Nat.not_lt_of_le hle)

/-- The notifiers on the way up from a mutation are those of the parts it was made in. -/
theorem Sound.advances_told {l l' : Live s} (h : l.Sound base owner) {m : Move s} {way : Way s}
    {n : Nat} {o : Origin} {e : Edited s.Part}
    (hrelinks : Relinks l.forest way.path n o l.part e g l'.part)
    (hnotify : g.notify n o = some l'.forest) (htree : m.tree l.tree = e.part)
    (hmutation : m.mutation? l.tree = some way) : Advances base owner l m l' := by
  have htold := hrelinks.told h.isPrivate h.base_le h.owner_lt h.hangs hnotify
  have howner : owner < l.forest.size := Nat.lt_of_lt_of_le h.owner_lt h.base_le
  have hangs : s.Hangs l'.forest owner l'.part := by
    obtain ⟨hlinked, hnodup⟩ := hrelinks.hangs howner h.hangs
    exact ⟨hlinked.mono (fun i _ => htold.chain i)
      (Nat.lt_of_lt_of_le howner hrelinks.grows.size_le), hnodup⟩
  have hown : ∀ j ∈ (s.reports l'.part).numbers, base ≤ j := by
    intro j hj
    rcases hrelinks.numbers j hj with hold | hnew
    · exact h.own j hold
    · exact Nat.le_trans h.base_le hnew
  have hemitted : ∀ j ∈ (s.reports l'.part).numbers,
      l'.forest.emittedAt j = l.forest.emittedAt j + (n :: way.path.enclosing l.part).count j :=
    fun j hj => htold.emitted j (hown j hj) (hangs.linked.lt_size j hj)
  refine ⟨⟨h.owner_lt, Nat.le_trans h.base_le htold.size_le, hangs, hown, htold.isPrivate⟩,
    htold.size_le, fun i hi => ?_, ?_, ?_, ?_, ?_⟩
  · rw [htold.chain, hrelinks.grows.chain_eq hi]
  · rw [htree, hrelinks.mirrored howner h.hangs l'.forest.emittedAt hemitted]
    rfl
  · intro c x n' hx
    obtain ⟨r, hr, rfl⟩ := hx
    exact hrelinks.kept hr
  · intro c x n' hx
    have hlt := Nat.lt_of_lt_of_le (h.lt_size n' hx.mem) htold.size_le
    rw [htold.emitted n' (h.own n' hx.mem) hlt, Move.reaches, hmutation]
    obtain ⟨r, hr, rfl⟩ := hx
    obtain ⟨q, hq, rfl⟩ := hrelinks.place
    rw [Path.count_enclosing hq hr h.hangs.nodup hrelinks.own]
    rfl
  · intro c x n' hx hle
    have hout : n' ∉ n :: way.path.enclosing l.part := fun hmem =>
      Nat.not_lt_of_le hle (h.lt_size n' (hrelinks.told_mem n' hmem))
    rw [hemitted n' hx.mem, Forest.emittedAt_of_size_le hle, List.count_eq_zero.mpr hout]

theorem Sound.advances {l l' : Live s} (h : l.Sound base owner) {m : Move s}
    (hstep : l.step m = some l') : Advances base owner l m l' := by
  obtain ⟨rfl, htree, hmutation⟩ | ⟨way, n, o, e, g, hrelinks, hnotify, htree, hmutation⟩ :=
    step_cases h.lt_size hstep
  · exact h.advances_still htree hmutation
  · exact h.advances_told hrelinks hnotify htree hmutation

/-! ## A run of moves -/

theorem run_append (l : Live s) (earlier later : List (Move s)) :
    l.run (earlier ++ later) = (l.run earlier).bind (·.run later) := List.foldlM_append

theorem run_singleton (l : Live s) (m : Move s) : l.run [m] = l.step m := by
  show (l.step m >>= fun l => some l) = l.step m
  exact bind_pure _

/-- What a run of moves has made of a tree and its notifiers. -/
structure Reached (base owner : Nat) (start : Live s) (moves : List (Move s)) (l : Live s) :
    Prop where
  sound : l.Sound base owner
  chain_eq : ∀ i < start.forest.size, l.forest.chain i = start.forest.chain i
  size_le : start.forest.size ≤ l.forest.size
  tree_eq : l.tree = Move.run moves start.tree
  history : ∀ {c : Site} {x : Path s c} {n : Nat}, l.Has x n →
    ∃ earlier later, moves = earlier ++ later ∧ start.Made earlier x n ∧
      l.forest.emittedAt n = Move.mutations x later (Move.run earlier start.tree)

theorem Reached.step {start l l' : Live s} {moves : List (Move s)} {m : Move s}
    (h : Reached base owner start moves l) (hrun : start.run moves = some l)
    (hstep : l.step m = some l') : Reached base owner start (moves ++ [m]) l' := by
  have hadvances := h.sound.advances hstep
  have hafter : start.run (moves ++ [m]) = some l' := by
    rw [run_append, hrun]
    exact (l.run_singleton m).trans hstep
  refine ⟨hadvances.sound, fun i hi => ?_, Nat.le_trans h.size_le hadvances.size_le, ?_, ?_⟩
  · rw [hadvances.chain_eq i (Nat.lt_of_lt_of_le hi h.size_le), h.chain_eq i hi]
  · rw [hadvances.tree_eq, h.tree_eq, Move.run_append]
    rfl
  · intro c x n hx
    rcases hadvances.kept hx with hold | hnew
    · obtain ⟨earlier, later, rfl, hmade, hcount⟩ := h.history hold
      refine ⟨earlier, later ++ [m], List.append_assoc .., hmade, ?_⟩
      rw [hadvances.counted hold, hcount, Move.mutations_append, h.tree_eq, Move.run_append]
      rfl
    · refine ⟨moves ++ [m], [], (List.append_nil _).symm, ⟨⟨l', hafter, hx⟩, ?_⟩,
        hadvances.fresh hx hnew⟩
      intro earlier m' before heq hbefore
      obtain ⟨rfl, -⟩ := List.append_inj' heq rfl
      rw [hrun] at hbefore
      cases hbefore
      exact hnew

theorem reached_run {start : Live s} (h : start.Sound base owner)
    (hzero : ∀ j ∈ (s.reports start.part).numbers, start.forest.emittedAt j = 0)
    (moves : List (Move s)) : ∀ {l : Live s}, start.run moves = some l →
      Reached base owner start moves l := by
  induction moves using List.reverseRecOn with
  | nil =>
    intro l hrun
    obtain rfl : start = l := Option.some.inj hrun
    refine ⟨h, fun _ _ => rfl, Nat.le_refl _, rfl, fun hx => ?_⟩
    exact ⟨[], [], rfl, ⟨⟨start, rfl, hx⟩, fun _ _ _ heq => by simp at heq⟩, hzero _ hx.mem⟩
  | append_singleton moves m ih =>
    intro l hrun
    rw [run_append] at hrun
    obtain ⟨before, hbefore, hlast⟩ := Option.bind_eq_some_iff.mp hrun
    exact (ih hbefore).step hbefore (before.run_singleton m ▸ hlast)

theorem exists_step {l : Live s} (h : ∀ j ∈ (s.reports l.part).numbers, j < l.forest.size)
    (hquiet : l.forest.Quiet) (m : Move s) : ∃ l', l.step m = some l' ∧ l'.forest.Quiet := by
  have hmirrors := m.mirrors h
  unfold step
  generalize m.on (s.recount l.forest.emittedAt l.part) = plain at hmirrors
  generalize m.wire l.part l.forest = linked at hmirrors ⊢
  cases hmirrors with
  | refused e => exact ⟨l, rfl, hquiet⟩
  | silent => exact ⟨l, rfl, hquiet⟩
  | told hrelinks =>
    obtain ⟨k, hnotify, hquiet⟩ := Forest.exists_notify (hrelinks.grows.quiet hquiet) _ _
    exact ⟨_, congrArg (Option.map _) hnotify, hquiet⟩

/-- Where no listener passes a change on, every run comes to its end. -/
theorem exists_run (moves : List (Move s)) : ∀ {l : Live s}, l.Sound base owner →
    l.forest.Quiet → ∃ l', l.run moves = some l' := by
  induction moves with
  | nil => exact fun {l} _ _ => ⟨l, rfl⟩
  | cons m moves ih =>
    intro l h hquiet
    obtain ⟨next, hstep, hquiet⟩ := exists_step h.lt_size hquiet m
    obtain ⟨l', hrun⟩ := ih (h.advances hstep).sound hquiet
    refine ⟨l', ?_⟩
    rw [run, List.foldlM_cons, hstep]
    exact hrun

/-! ## Trees that were built -/

/-- Nobody knows of the notifiers of a tree that was built just now, and they have counted
nothing. -/
theorem sound_of_wired {p : s.Part} (hf : f.Closed) (howner : owner < f.size)
    (h : f.Wired owner [s.reports p] g) : (Live.mk p g).Sound f.size owner ∧
      ∀ j ∈ (s.reports p).numbers, g.emittedAt j = 0 := by
  refine ⟨⟨howner, h.grows.size_le, ⟨h.linked _ (List.mem_singleton_self _), ?_⟩, h.fresh_part,
    h.grows.isPrivate hf.isPrivate (Nat.le_refl _)⟩, fun j hj => ?_⟩
  · have hnumbers := h.numbers
    rw [numbersAll, numbersAll, List.append_nil] at hnumbers
    exact hnumbers ▸ List.nodup_range'
  · rw [h.grows.emittedAt_eq, Forest.emittedAt_of_size_le (h.fresh_part j hj)]

/-- The notifier of a part in a tree as a run of moves has left it. The links lead from it through
those of the parts around to the owner of the tree and on, `outside`. It has counted the mutations
that were made at the part or below it since the part was made, whatever became of what they were
made in, and it will count those that come. -/
structure Accounts (start : Live s) (moves : List (Move s)) (live : Live s) (outside : List Nat)
    (x : Path s b) (q : b.Part) (n : Nat) : Prop where
  has : live.Has x n
  counts : b.emitted q = live.forest.emittedAt n
  links : live.forest.chain n = n :: x.enclosing live.part ++ outside
  history : ∃ earlier later, moves = earlier ++ later ∧ start.Made earlier x n ∧
    b.emitted q = Move.mutations x later (Move.run earlier start.tree)
  next : ∀ m after, live.step m = some after →
    after.forest.emittedAt n = b.emitted q + (m.reaches x live.tree).toNat

theorem Reached.accounts {start live : Live s} {moves : List (Move s)}
    (h : Reached base owner start moves live) (howner : owner < start.forest.size) {x : Path s b}
    {q : b.Part} (hq : x.get? live.tree = some q) :
    ∃ n, Accounts start moves live (start.forest.chain owner) x q n := by
  rw [tree, x.get?_recount] at hq
  obtain ⟨part, hpart, rfl⟩ := Option.map_eq_some_iff.mp hq
  have hhas : live.Has x (b.emitted part) := ⟨part, hpart, rfl⟩
  have hcounts := b.emitted_recount live.forest.emittedAt part
  refine ⟨b.emitted part, hhas, hcounts, ?_, ?_, fun m after hstep => ?_⟩
  · rw [Path.chain_eq hpart h.sound.hangs.linked, h.chain_eq owner howner]
  · rw [hcounts]
    exact h.history hhas
  · rw [hcounts]
    exact (h.sound.advances hstep).counted hhas

end Live

/-- The notifiers of a tree mirror it. A component that is built below an owner gives the tree that
it gives by itself, or the same failure. However the tree is filled, emptied, appended to, dropped
on and edited from then on, it is what the same moves make of the tree by itself, and each part of
it has a notifier that accounts for it. Unless some listener passes changes on, no run is stuck. -/
theorem Component.notifiers_mirror_ownership (c : Component) {f : Forest} (hf : f.Closed)
    {owner : Nat} (howner : owner < f.size) :
    (∀ e, c.wire owner f = .error e → c.build = .error e) ∧
    ∀ tree g, c.wire owner f = .ok (tree, g) →
      c.build = .ok ⟨tree.site, (Live.mk tree.part g).tree⟩ ∧
      ∀ moves : List (Move tree.site),
        (f.relays = 0 → ∃ live, (Live.mk tree.part g).run moves = some live) ∧
        ∀ live, (Live.mk tree.part g).run moves = some live →
          live.tree = Move.run moves (Live.mk tree.part g).tree ∧
          ∀ (b : Site) (x : Path tree.site b) (q : b.Part), x.get? live.tree = some q →
            ∃ n, Live.Accounts ⟨tree.part, g⟩ moves live (f.chain owner) x q n := by
  have hmakes := c.makes f owner howner
  cases hbuild : c.build with
  | error e =>
    rw [hbuild] at hmakes
    have hfailed : c.wire owner f = .error e := hmakes
    rw [hfailed]
    refine ⟨fun e' he => ?_, nofun⟩
    cases he
    rfl
  | ok built =>
    rw [hbuild] at hmakes
    obtain ⟨made, g', hwire, hplain, hwired⟩ := hmakes
    rw [hwire]
    refine ⟨nofun, fun tree g h => ?_⟩
    cases h
    obtain ⟨hsound, hzero⟩ := Live.sound_of_wired (s := made.site) hf howner hwired
    have howner' : owner < g'.size := Nat.lt_of_lt_of_le howner hwired.grows.size_le
    have hsilent : (Live.mk made.part g').tree = made.site.recount (fun _ => 0) made.part :=
      Site.recount_congr hzero
    refine ⟨?_, fun moves => ⟨fun hrelays => ?_, fun live hrun => ?_⟩⟩
    · rw [hsilent]
      exact congrArg Except.ok hplain.symm
    · exact Live.exists_run moves hsound (hwired.grows.quiet (Forest.quiet_of_relays hrelays))
    · have hreached := Live.reached_run hsound hzero moves hrun
      refine ⟨hreached.tree_eq, fun b x q hq => ?_⟩
      rw [← hwired.grows.chain_eq howner]
      exact hreached.accounts howner' hq

def sampleValue : Path .statement (.slot .number) := .step .value .here

/-- A sum is put into the value of a statement, a product into the sum, and both are taken out
again. In between the statement gets another variable, twice the same. -/
def sampleMoves : List (Move .statement) :=
  [.edit sampleValue (.fill (.expr (.operation .add .gap .gap))),
   .edit (.step .value (.step .occupant (.step .op1 .here)))
     (.fill (.expr (.operation .multiply .gap .gap))),
   .edit .here (.selectVariable "curr_video"), .edit .here (.selectVariable "curr_video"),
   .edit sampleValue .clear]

/-- The value has counted three mutations, one of them in the sum that is gone. -/
theorem sampleMoves_accounted : Forest.empty.addRoot.Closed ∧ 0 < Forest.empty.addRoot.size ∧
    ∃ tree g live n, (Component.statement (.set "item" .gap)).wire 0 Forest.empty.addRoot =
        .ok (⟨.statement, tree⟩, g) ∧
      Forest.empty.addRoot.relays = 0 ∧ (Live.mk tree g).run sampleMoves = some live ∧
      sampleValue.get? live.tree = some (.empty ⟨false, false, 3⟩) ∧
      Live.Accounts ⟨tree, g⟩ sampleMoves live [0] sampleValue (.empty ⟨false, false, 3⟩) n := by
  have hclosed : Forest.empty.addRoot.Closed := by
    intro s hs
    cases List.mem_singleton.mp hs
    exact ⟨nofun, nofun⟩
  have howner : 0 < Forest.empty.addRoot.size := Nat.zero_lt_one
  obtain ⟨-, hbuilt⟩ := Component.notifiers_mirror_ownership (.statement (.set "item" .gap)) hclosed
    howner
  obtain ⟨-, hruns⟩ := hbuilt _ _ rfl
  obtain ⟨hends, haccounts⟩ := hruns sampleMoves
  obtain ⟨live, hrun⟩ := hends rfl
  have hvalue : sampleValue.get? live.tree = some (.empty ⟨false, false, 3⟩) := by
    obtain ⟨htree, -⟩ := haccounts live hrun
    rw [htree]
    rfl
  obtain ⟨-, hparts⟩ := haccounts live hrun
  obtain ⟨n, hn⟩ := hparts _ sampleValue _ hvalue
  exact ⟨hclosed, howner, _, _, live, n, rfl, rfl, hrun, hvalue, hn⟩

end SceneScript
