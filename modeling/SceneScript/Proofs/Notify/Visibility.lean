import SceneScript.Proofs.Notify.Handles
import SceneScript.Proofs.Notify.Relays

/-! The order of deliveries, and who hears of a change. Where no listener passes changes on, a
notification is a row of deliveries, from the signal where it is made up to the root. Each calls the
listeners that are there when it starts, so that a listener which is subscribed meanwhile hears of
the change exactly if a delivery at its signal is yet to come. -/

namespace SceneScript

/-! ## Deliveries in a row -/

/-- A delivery, with what there is when it starts and when it ends. -/
structure Delivery where
  signal : Nat
  start : Observed
  stop : Observed

namespace Delivery

variable (d : Delivery)

/-- The listeners that are there when the delivery starts. -/
def called : List Listener := d.start.forest.listeners d.signal

/-- The calls of these listeners, in the order they were subscribed. -/
def calls : List (Nat × Nat) := (List.range d.called.length).map (Prod.mk d.signal)

/-- What these listeners write down. -/
def entries (o : Origin) : List LogEntry := d.called.map fun l => ⟨l.tag, o⟩

/-- Listener `k` of a signal is subscribed while the delivery is under way. -/
structure Adds (j k : Nat) : Prop where
  absent : (d.start.forest.listeners j).length ≤ k
  present : k < (d.stop.forest.listeners j).length

variable {d} {j k : Nat}

theorem mem_calls :
    (j, k) ∈ d.calls ↔ d.signal = j ∧ k < (d.start.forest.listeners j).length := by
  rw [calls, List.mem_map]
  constructor
  · rintro ⟨k, hk, hjk⟩
    cases hjk
    exact ⟨rfl, List.mem_range.mp hk⟩
  · rintro ⟨rfl, hk⟩
    exact ⟨k, List.mem_range.mpr hk, rfl⟩

/-- A listener is called after those that were subscribed before it. -/
theorem calls_eq_append (hk : k < d.called.length) : ∃ later,
    d.calls = (List.range k).map (Prod.mk d.signal) ++ (d.signal, k) :: later := by
  obtain ⟨m, hm⟩ := Nat.exists_eq_add_of_lt hk
  refine ⟨(List.range' (k + 1) m).map (Prod.mk d.signal), ?_⟩
  rw [calls, hm, List.range_eq_range', List.range_eq_range', ← List.map_cons, ← List.map_append,
    ← List.range'_succ, Nat.add_assoc, ← List.range'_append_1, Nat.zero_add]

/-- Deliveries at signals that differ call no listener twice. -/
theorem nodup_calls {ds : List Delivery} (h : (ds.map signal).Nodup) :
    (ds.flatMap calls).Nodup := by
  rw [List.nodup_flatMap]
  refine ⟨fun d _ => List.nodup_range.map fun _ _ h => (Prod.mk.inj h).2, ?_⟩
  refine (List.pairwise_map.mp h).imp fun {d e} hne => ?_
  rintro ⟨j, k⟩ hd he
  exact hne ((mem_calls.mp hd).1.trans (mem_calls.mp he).1.symm)

end Delivery

/-- Deliveries one after the other, each from where the one before has ended. -/
inductive Climbs (o : Origin) : List Delivery → Observed → Observed → Prop
  | arrived {x : Observed} : Climbs o [] x x
  | deliver {d : Delivery} {ds : List Delivery} {z : Observed}
    (h : (Task.calls d.signal 0 d.called o).Returns (d.start.count d.signal) d.stop)
    (hrest : Climbs o ds d.stop z) : Climbs o (d :: ds) d.start z

theorem Task.Returns.exists_climbs {o : Origin} : ∀ {is : List Nat} {x y : Observed},
    (climb is o).Returns x y → ∃ ds : List Delivery, ds.map Delivery.signal = is ∧ Climbs o ds x y
  | [], _, _, h => by
    cases h
    exact ⟨[], rfl, .arrived⟩
  | i :: is, x, y, h => by
    cases h with
    | @deliver _ _ _ _ z _ h hrest =>
      obtain ⟨ds, rfl, hclimbs⟩ := hrest.exists_climbs
      exact ⟨⟨i, x, z⟩ :: ds, rfl, .deliver h hclimbs⟩

namespace Climbs

variable {o : Origin} {ds below above : List Delivery} {d e : Delivery} {x y z : Observed}

theorem later (h : Climbs o ds x y) : x.Later y := by
  induction h with
  | arrived => exact .refl _
  | deliver h hrest ih => exact ((Observed.Later.count _ _).trans h.later).trans ih

theorem split : ∀ {below : List Delivery} {x : Observed}, Climbs o (below ++ above) x z →
    ∃ y, Climbs o below x y ∧ Climbs o above y z
  | [], x, h => ⟨x, .arrived, h⟩
  | d :: below, _, h => by
    cases h with
    | deliver h hrest =>
      obtain ⟨y, hbelow, habove⟩ := hrest.split
      exact ⟨y, .deliver h hbelow, habove⟩

/-- What there is when a delivery starts comes between the start and the end of the row. -/
theorem later_start (h : Climbs o ds x y) (hd : d ∈ ds) : x.Later d.start := by
  obtain ⟨below, above, rfl⟩ := List.append_of_mem hd
  obtain ⟨_, hbelow, habove⟩ := h.split
  cases habove
  exact hbelow.later

theorem start_later (h : Climbs o ds x y) (hd : d ∈ ds) : d.start.Later y := by
  obtain ⟨below, above, rfl⟩ := List.append_of_mem hd
  obtain ⟨_, -, habove⟩ := h.split
  have hlater := habove.later
  cases habove
  exact hlater

end Climbs

/-! ## What is heard -/

theorem Observed.Later.length_le {x y : Observed} (h : x.Later y) (j : Nat) :
    (x.forest.listeners j).length ≤ (y.forest.listeners j).length := by
  refine Nat.le_of_not_lt fun hlt => ?_
  have hthere := List.getElem?_eq_getElem hlt
  have hbelow := (List.getElem?_eq_some_iff.mp (h.listeners j _ _ hthere)).1
  exact Nat.lt_irrefl _ hbelow

/-- If nothing was notified in the end, then nothing was notified on the way. -/
theorem Observed.Later.notified_eq {x y z : Observed} (h : x.Later y) (h' : y.Later z)
    (hquiet : z.book.notified = x.book.notified) :
    y.book.notified = x.book.notified ∧ z.book.notified = y.book.notified := by
  have hlength := h'.notified.length_le
  rw [hquiet] at hlength
  have hxy := h.notified.eq_of_length_le hlength
  exact ⟨hxy.symm, hquiet.trans hxy⟩

/-- A listener that notifies nothing is heard of no more. -/
theorem Task.Returns.heard_react {x y : Observed} (h : react.Returns x y)
    (hquiet : y.book.notified = x.book.notified) :
    y.forest.log = x.forest.log ∧ y.book.heard = x.book.heard := by
  generalize ht : react = t at h
  induction h with
  | idle => exact ⟨rfl, rfl⟩
  | subscribe hi l hrest ih => exact ih hquiet ht
  | relay h hrest ih ihrest =>
    obtain ⟨relayed, hrelayed⟩ := h.exists_relayed
    obtain ⟨hnone, -⟩ := h.later.notified_eq hrest.later hquiet
    have hnil := List.self_eq_append_right.mp (hnone.symm.trans hrelayed)
    cases hnil
  | notify | arrived | deliver | heard | call => cases ht

theorem Task.Returns.heard_calls {i : Nat} {o : Origin} :
    ∀ {ls : List Listener} {k : Nat} {x y : Observed}, (calls i k ls o).Returns x y →
      y.book.notified = x.book.notified →
        y.forest.log = x.forest.log ++ ls.map (fun l => ⟨l.tag, o⟩) ∧
          y.book.heard = x.book.heard ++ (List.range' k ls.length).map (Prod.mk i)
  | [], _, _, _, h, _ => by
    cases h
    exact ⟨(List.append_nil _).symm, (List.append_nil _).symm⟩
  | l :: ls, k, x, y, h, hquiet => by
    cases h with
    | call h hrest =>
      have hcalled := Observed.Later.call x i k l o
      obtain ⟨hfirst, hthen⟩ := (hcalled.trans h.later).notified_eq hrest.later hquiet
      obtain ⟨hlog, hheard⟩ := h.heard_react hfirst
      obtain ⟨hlogs, hheards⟩ := hrest.heard_calls hthen
      rw [hlogs, hheards, hlog, hheard]
      exact ⟨List.append_assoc .., List.append_assoc ..⟩

/-- The listeners that each delivery finds are heard of, in order, and no others. -/
theorem Climbs.heard {o : Origin} {ds : List Delivery} {x y : Observed} (h : Climbs o ds x y)
    (hquiet : y.book.notified = x.book.notified) :
    y.forest.log = x.forest.log ++ ds.flatMap (Delivery.entries · o) ∧
      y.book.heard = x.book.heard ++ ds.flatMap Delivery.calls := by
  induction h with
  | arrived => exact ⟨(List.append_nil _).symm, (List.append_nil _).symm⟩
  | @deliver d ds z h hrest ih =>
    have hcounted := Observed.Later.count d.start d.signal
    obtain ⟨hfirst, hthen⟩ := (hcounted.trans h.later).notified_eq hrest.later hquiet
    obtain ⟨hlog, hheard⟩ := h.heard_calls hfirst
    obtain ⟨hlogs, hheards⟩ := ih hthen
    rw [hlogs, hheards, hlog, hheard, ← List.range_eq_range']
    exact ⟨List.append_assoc .., List.append_assoc ..⟩

/-! ## Listeners that are subscribed meanwhile -/

namespace Climbs

variable {o : Origin} {ds below above : List Delivery} {d e : Delivery} {x y : Observed} {j k : Nat}

/-- A listener that was not there before was subscribed while one of the deliveries was under way. -/
theorem exists_adds (h : Climbs o ds x y) (habsent : (x.forest.listeners j).length ≤ k)
    (hpresent : k < (y.forest.listeners j).length) : ∃ d ∈ ds, d.Adds j k := by
  induction h with
  | arrived => omega
  | @deliver d ds z h hrest ih =>
    rcases Nat.lt_or_ge k (d.stop.forest.listeners j).length with hlt | hge
    · exact ⟨d, List.mem_cons_self, habsent, hlt⟩
    · obtain ⟨e, he, hadds⟩ := ih hge hpresent
      exact ⟨e, List.mem_cons_of_mem d he, hadds⟩

/-- A delivery that is yet to come finds what was subscribed. -/
theorem finds (h : Climbs o (below ++ d :: above) x y) (he : e ∈ above) (hadds : d.Adds j k) :
    k < (e.start.forest.listeners j).length := by
  obtain ⟨_, -, hclimbs⟩ := h.split
  cases hclimbs with
  | deliver _ hrest =>
    exact Nat.lt_of_lt_of_le hadds.present ((hrest.later_start he).length_le j)

/-- A delivery that has already started does not. -/
theorem misses (h : Climbs o (below ++ d :: above) x y) (he : e ∈ below ∨ e = d)
    (hadds : d.Adds j k) : (e.start.forest.listeners j).length ≤ k := by
  rcases he with he | rfl
  · obtain ⟨_, hbelow, hclimbs⟩ := h.split
    cases hclimbs with
    | deliver _ _ => exact Nat.le_trans ((hbelow.start_later he).length_le j) hadds.absent
  · exact hadds.absent

/-- A listener that is subscribed meanwhile is called exactly if a delivery at its signal is yet to
come. -/
theorem mem_calls_iff (h : Climbs o (below ++ d :: above) x y) (hadds : d.Adds j k) :
    (j, k) ∈ (below ++ d :: above).flatMap Delivery.calls ↔ j ∈ above.map Delivery.signal := by
  rw [List.mem_flatMap, List.mem_map]
  constructor
  · rintro ⟨e, he, hcalled⟩
    obtain ⟨hsignal, hlt⟩ := Delivery.mem_calls.mp hcalled
    have hstarted : ¬ (e ∈ below ∨ e = d) := fun hstarted =>
      Nat.not_le_of_lt hlt (h.misses hstarted hadds)
    rw [List.mem_append, List.mem_cons, ← or_assoc] at he
    exact ⟨e, he.resolve_left hstarted, hsignal⟩
  · rintro ⟨e, he, hsignal⟩
    exact ⟨e, List.mem_append_right _ (List.mem_cons_of_mem d he),
      Delivery.mem_calls.mpr ⟨hsignal, h.finds he hadds⟩⟩

end Climbs

/-! ## The way up -/

namespace Forest

/-- Behind a signal on a way up comes the way up from it. -/
def Nested (f : Forest) : Prop :=
  ∀ (i j : Nat) (below above : List Nat), f.chain i = below ++ j :: above → f.chain j = j :: above

namespace Nested

variable {f g : Forest}

theorem congr (h : f.Nested) (hchain : g.chain = f.chain) : g.Nested := by
  unfold Nested
  rw [hchain]
  exact h

/-- A new signal is below one that is there, or below none. -/
theorem push (h : f.Nested) (hlt : ∀ i, ∀ j ∈ f.chain i, j < f.size) (p : Nat) :
    (f.push (f.chain p)).Nested := by
  intro i j below above hchain
  have hold {i : Nat} {below : List Nat} (hchain : f.chain i = below ++ j :: above) :
      (f.push (f.chain p)).chain j = j :: above := by
    have hj : j < f.size := hlt i j (hchain ▸ List.mem_append_right _ List.mem_cons_self)
    rw [chain_push, if_neg (Nat.ne_of_lt hj)]
    exact h _ _ _ _ hchain
  rw [chain_push] at hchain
  split at hchain
  · cases below with
    | nil =>
      cases hchain
      rw [chain_push, if_pos rfl]
    | cons b below => exact hold (List.cons.inj hchain).2
  · exact hold hchain

theorem addRoot (h : f.Nested) (hlt : ∀ i, ∀ j ∈ f.chain i, j < f.size) : f.addRoot.Nested := by
  have hpush := h.push hlt f.size
  rwa [chain_of_size_le (Nat.le_refl _)] at hpush

theorem empty : Forest.empty.Nested := by
  intro i j below above hchain
  rw [chain_of_size_le (Nat.zero_le i)] at hchain
  cases below <;> cases hchain

end Nested

end Forest

theorem Use.Takes.nested {u : Use} {n m : Ledger} (h : u.Takes n m) (hn : n.Sound)
    (hnested : n.forest.Nested) : m.forest.Nested := by
  have hlt (i : Nat) : ∀ j ∈ n.forest.chain i, j < n.forest.size := hn.balanced.chain_lt
  cases u with
  | root =>
    cases h
    exact hnested.addRoot hlt
  | child k =>
    obtain ⟨i, hi, rfl⟩ := h
    change (n.forest.addChild i).Nested
    rw [Forest.addChild_eq (hn.held k i hi)]
    exact hnested.push hlt i
  | clone k | drop k =>
    obtain ⟨i, -, rfl⟩ := h
    exact hnested
  | subscribe k l =>
    obtain ⟨i, -, rfl⟩ := h
    exact hnested.congr (funext fun j => n.forest.chain_subscribe i j l)
  | notify k o =>
    obtain ⟨i, -, x, hx, rfl⟩ := h
    exact hnested.congr (funext hx.later.chain)

theorem Runs.nested : ∀ {us : List Use} {n m : Ledger}, Runs us n m → n.Sound →
    n.forest.Nested → m.forest.Nested
  | [], _, _, rfl, _, hnested => hnested
  | _ :: _, _, _, ⟨_, htakes, hruns⟩, hn, hnested =>
    Runs.nested hruns (htakes.sound hn) (htakes.nested hn hnested)

/-! ## Listeners that pass nothing on -/

namespace Forest.Quiet

variable (notify : Nat → Forest → Option Forest) (o : Origin)

/-- A listener that passes nothing on returns, and notifies nothing. -/
theorem call {f : Forest} (hf : f.Quiet) {l : Listener} (hl : l.isRelay = false) (i k : Nat)
    (book : Book) : ∃ g book', Forest.call notify o f l = some g ∧ g.Quiet ∧
      Task.react.Returns ((Observed.mk f book).call i k l o) ⟨g, book'⟩ ∧
        book'.notified = book.notified := by
  have hwrite := (SameRoutes.refl f).write l.tag o
  cases l with
  | plain tag => exact ⟨_, _, rfl, hwrite.quiet hf, .idle, rfl⟩
  | subscriber tag inner =>
    rcases Nat.lt_or_ge inner f.size with hlt | hge
    · exact ⟨_, _, rfl, (hwrite.subscribe inner (innerTag tag)).quiet hf,
        .subscribe hlt (.plain (innerTag tag)) .idle, rfl⟩
    · have hsame := subscribe_of_size_le (f := f.write (Listener.subscriber tag inner).tag o) hge
        (.plain (innerTag tag))
      exact ⟨_, _, congrArg some hsame, hf, .idle, rfl⟩
  | relay tag target => cases hl

theorem calls (i : Nat) : ∀ {ls : List Listener} {f : Forest} (k : Nat) (book : Book),
    f.Quiet → (∀ l ∈ ls, l.isRelay = false) →
      ∃ g book', ls.foldlM (Forest.call notify o) f = some g ∧ g.Quiet ∧
        (Task.calls i k ls o).Returns ⟨f, book⟩ ⟨g, book'⟩ ∧ book'.notified = book.notified
  | [], f, k, book, hf, _ => ⟨f, book, rfl, hf, .heard, rfl⟩
  | l :: ls, f, k, book, hf, hls => by
    obtain ⟨hl, hls⟩ := List.forall_mem_cons.mp hls
    obtain ⟨g, book', hcall, hg, hreturns, hnotified⟩ := hf.call notify o hl i k book
    obtain ⟨g', book'', hcalls, hg', hrest, hnotified'⟩ := calls i (k + 1) book' hg hls
    refine ⟨g', book'', ?_, hg', .call hreturns hrest, hnotified'.trans hnotified⟩
    rw [List.foldlM_cons, hcall]
    exact hcalls

theorem climb : ∀ (is : List Nat) {f : Forest} (book : Book), f.Quiet →
    ∃ g book', is.foldlM (deliver notify o) f = some g ∧
      (Task.climb is o).Returns ⟨f, book⟩ ⟨g, book'⟩ ∧ book'.notified = book.notified
  | [], f, book, _ => ⟨f, book, rfl, .arrived, rfl⟩
  | i :: is, f, book, hf => by
    have hcounted := ((SameRoutes.refl f).count i).quiet hf
    obtain ⟨g, book', hdeliver, hg, hcalls, hnotified⟩ := calls notify o i 0 book hcounted (hf i)
    obtain ⟨g', book'', hclimb, hrest, hnotified'⟩ := climb is book' hg
    refine ⟨g', book'', ?_, .deliver hcalls hrest, hnotified'.trans hnotified⟩
    rw [List.foldlM_cons, deliver, hdeliver]
    exact hclimb

end Forest.Quiet

/-- Where no listener of the forest passes changes on, a notification returns and is the only one
that is made. -/
theorem Ledger.Sound.notify {n : Ledger} (hn : n.Sound) {k i : Nat}
    (hi : n.notifiers.signal? k = some i) (o : Origin) (hquiet : n.forest.Quiet) :
    ∃ m : Ledger, n.notifiers.notify i o = some m.notifiers ∧ (Use.notify k o).Takes n m ∧
      m.book.notified = n.book.notified ++ [i] := by
  obtain ⟨g, book, hclimb, hreturns, hnotified⟩ :=
    Forest.Quiet.climb (Forest.notifyWithin o 0) o (n.forest.chain i) (n.book.notify i) hquiet
  have hnotify : n.forest.notify i o = some g := Forest.notify_eq_some_iff.mpr ⟨1, hclimb⟩
  refine ⟨n.become ⟨g, book⟩, ?_, ⟨i, hi, _, .notify (hn.held k i hi) hreturns, rfl⟩, hnotified⟩
  rw [Notifiers.notify]
  exact congrArg (Option.map _) hnotify

/-! ## Who hears of a change -/

/-- How a change that is notified at a signal is heard of. -/
structure Ledger.HearsOf (n m : Ledger) (i : Nat) (o : Origin) (ds : List Delivery) : Prop where
  /-- It is delivered at the signal, at its parent, and so on up to the root. -/
  signals : ds.map Delivery.signal = n.forest.chain i
  climbs : Climbs o ds (n.observed.notify i) m.observed
  /-- Each delivery is written down by the listeners it finds when it starts, with its origin. -/
  log : m.forest.log = n.forest.log ++ ds.flatMap (Delivery.entries · o)
  heard : m.book.heard = n.book.heard ++ ds.flatMap Delivery.calls
  once : (ds.flatMap Delivery.calls).Nodup
  /-- Listeners are only subscribed while a delivery is under way. -/
  adds : ∀ j k, (n.forest.listeners j).length ≤ k → k < (m.forest.listeners j).length →
    ∃ d ∈ ds, d.Adds j k
  /-- What comes after a delivery is at the ancestors of its signal. -/
  ancestors : ∀ below d above, ds = below ++ d :: above →
    n.forest.chain d.signal = d.signal :: above.map Delivery.signal
  /-- Of those that are subscribed meanwhile, the ones at these ancestors are called. -/
  visible : ∀ below d above, ds = below ++ d :: above → ∀ j k, d.Adds j k →
    ((j, k) ∈ ds.flatMap Delivery.calls ↔ j ∈ above.map Delivery.signal)
  /-- They are called after the listeners that were subscribed there before. -/
  order : ∀ below d above, ds = below ++ d :: above → ∀ j k, d.Adds j k →
    ∀ e ∈ above, e.signal = j →
      ∃ later, e.calls = (List.range k).map (Prod.mk j) ++ (j, k) :: later

theorem Ledger.Sound.hearsOf {n m : Ledger} (hn : n.Sound) (hnested : n.forest.Nested) {k i : Nat}
    {o : Origin} (hi : n.notifiers.signal? k = some i) (htakes : (Use.notify k o).Takes n m)
    (hquiet : m.book.notified = n.book.notified ++ [i]) : ∃ ds, n.HearsOf m i o ds := by
  obtain ⟨i', hi', x, hx, rfl⟩ := htakes
  cases hi.symm.trans hi'
  cases hx with
  | notify _ hclimb =>
    obtain ⟨ds, hsignals, hclimbs⟩ := hclimb.exists_climbs
    change ds.map Delivery.signal = n.forest.chain i at hsignals
    obtain ⟨hlog, hheard⟩ := hclimbs.heard hquiet
    refine ⟨ds, hsignals, hclimbs, hlog, hheard, Delivery.nodup_calls ?_, ?_, ?_, ?_, ?_⟩
    · rw [hsignals]
      exact (hn.balanced.descends i).imp Nat.ne_of_gt
    · exact fun j k => hclimbs.exists_adds
    · rintro below d above rfl
      rw [List.map_append, List.map_cons] at hsignals
      exact hnested _ _ _ _ hsignals.symm
    · rintro below d above rfl j k hadds
      exact hclimbs.mem_calls_iff hadds
    · rintro below d above rfl j k hadds e he rfl
      exact Delivery.calls_eq_append (hclimbs.finds he hadds)

/-- Who hears of a change, whatever was done with the handles before.
- If listeners subscribe whom they want but notify nothing, then the change is delivered once at
  each signal on the way up, to the listeners that are there when the delivery starts.
- Listeners of the forest that pass nothing on are a case of this, and with them the notification
  returns. -/
theorem Ledger.change_heard {us : List Use} {n : Ledger} (h : Runs us .begin n) {k i : Nat}
    (hi : n.notifiers.signal? k = some i) (o : Origin) :
    (∀ m, (Use.notify k o).Takes n m → m.book.notified = n.book.notified ++ [i] →
      ∃ ds, n.HearsOf m i o ds) ∧
    (n.forest.Quiet → ∃ m ds, n.notifiers.notify i o = some m.notifiers ∧
      (Use.notify k o).Takes n m ∧ n.HearsOf m i o ds) := by
  have hn : n.Sound := h.sound .begin
  have hempty : ∀ i, ∀ j ∈ Forest.empty.chain i, j < Forest.empty.size := by
    intro i j hj
    rw [Forest.chain_of_size_le (Nat.zero_le i)] at hj
    cases hj
  have hnested : n.forest.Nested := h.nested .begin (Forest.Nested.empty.addRoot hempty)
  refine ⟨fun m => hn.hearsOf hnested hi, fun hquiet => ?_⟩
  obtain ⟨m, hm, htakes, hnotified⟩ := hn.notify hi o hquiet
  obtain ⟨ds, hds⟩ := hn.hearsOf hnested hi htakes hnotified
  exact ⟨m, ds, hm, htakes, hds⟩

/-- Below the first signal two listeners subscribe another each, one at the first signal and one at
their own; a third listens at the first. -/
def sampleSubscribers : List Use :=
  [.child 0, .subscribe 1 (.subscriber "inner" 0), .subscribe 1 (.subscriber "self" 1),
    .subscribe 0 (.plain "outer")]

def sampleSubscribed : Ledger :=
  (((Ledger.begin.addChild 0).subscribe 1 (.subscriber "inner" 0)).subscribe 1
    (.subscriber "self" 1)).subscribe 0 (.plain "outer")

/-- The listener that is added above hears of the change, after the one that was there before; the
one that is added at the lower signal does not. -/
theorem sampleSubscribed_heard : Runs sampleSubscribers .begin sampleSubscribed ∧
    sampleSubscribed.notifiers.signal? 1 = some 1 ∧ sampleSubscribed.forest.Quiet ∧
    ∃ m ds, sampleSubscribed.notifiers.notify 1 .control = some m.notifiers ∧
      sampleSubscribed.HearsOf m 1 .control ds ∧
      m.forest.log.map LogEntry.tag = ["inner", "self", "outer", "inner'"] ∧
      m.forest.listeners 1 = [.subscriber "inner" 0, .subscriber "self" 1, .plain "self'"] := by
  have hruns : Runs sampleSubscribers .begin sampleSubscribed :=
    ⟨_, ⟨0, rfl, rfl⟩, _, ⟨1, rfl, rfl⟩, _, ⟨1, rfl, rfl⟩, _, ⟨0, rfl, rfl⟩, rfl⟩
  have hi : sampleSubscribed.notifiers.signal? 1 = some 1 := rfl
  have hquiet : sampleSubscribed.forest.Quiet := Forest.quiet_of_relays (by decide)
  obtain ⟨m, ds, hm, -, hds⟩ := (Ledger.change_heard hruns hi .control).2 hquiet
  have hlog : (sampleSubscribed.notifiers.notify 1 .control).map
      (fun m => m.forest.log.map LogEntry.tag) = some ["inner", "self", "outer", "inner'"] := by
    decide
  have hthere : (sampleSubscribed.notifiers.notify 1 .control).map
      (fun m => m.forest.listeners 1) =
        some [.subscriber "inner" 0, .subscriber "self" 1, .plain "self'"] := by decide
  rw [hm] at hlog hthere
  exact ⟨hruns, hi, hquiet, m, ds, hm, hds, Option.some.inj hlog, Option.some.inj hthere⟩

end SceneScript
