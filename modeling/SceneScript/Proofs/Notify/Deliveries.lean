import Mathlib.Data.List.Nodup
import SceneScript.Proofs.Notify.Counting

/-! Every listener hears every change once. A listener may do whatever it wants when it is called,
and something else each time: subscribe listeners anywhere, and notify any signal, its own included,
so that deliveries run inside of deliveries. A book is kept of it. While deliveries are under way,
each listener is still owed the calls of those it was there for, and each signal the deliveries that
are on their way up to it; a notification leaves all that is owed as it was, so that in the end
nothing is owed. -/

namespace SceneScript

/-! ## The book -/

/-- What is kept of the listeners and the notifications. -/
structure Book where
  /-- For each listener of a signal, in the order they were subscribed, how many changes the signal
  had counted by then. -/
  since : Nat → List Nat
  /-- The calls in order, each with the signal and the number of the listener there. -/
  heard : List (Nat × Nat)
  /-- Where notifications were made, in order. -/
  notified : List Nat

namespace Book

def empty : Book := ⟨fun _ => [], [], []⟩

def subscribe (b : Book) (i now : Nat) : Book :=
  { b with since := fun j => b.since j ++ if i = j then [now] else [] }

def call (b : Book) (i k : Nat) : Book := { b with heard := b.heard ++ [(i, k)] }

def notify (b : Book) (i : Nat) : Book := { b with notified := b.notified ++ [i] }

end Book

/-- A forest with its book. -/
structure Observed where
  forest : Forest
  book : Book

namespace Observed

variable (x : Observed)

def subscribe (i : Nat) (l : Listener) : Observed :=
  ⟨x.forest.subscribe i l, x.book.subscribe i (x.forest.emittedAt i)⟩

def count (i : Nat) : Observed := { x with forest := x.forest.count i }

def call (i k : Nat) (l : Listener) (o : Origin) : Observed :=
  ⟨x.forest.write l.tag o, x.book.call i k⟩

def notify (i : Nat) : Observed := { x with book := x.book.notify i }

end Observed

/-! ## Deliveries -/

/-- What may be under way. -/
inductive Task
  /-- A notification of a signal. -/
  | notify (i : Nat) (o : Origin)
  /-- Deliveries at these signals, one after the other. -/
  | climb (is : List Nat) (o : Origin)
  /-- Calls of these listeners of a signal, the first of which has number `k`. -/
  | calls (i k : Nat) (ls : List Listener) (o : Origin)
  /-- Whatever a listener does. -/
  | react

/-- A task that returns. -/
inductive Task.Returns : Task → Observed → Observed → Prop
  | notify {i : Nat} {o : Origin} {x y : Observed} (hi : i < x.forest.size)
    (h : (climb (x.forest.chain i) o).Returns (x.notify i) y) : (notify i o).Returns x y
  | arrived {o : Origin} {x : Observed} : (climb [] o).Returns x x
  | deliver {i : Nat} {is : List Nat} {o : Origin} {x y z : Observed}
    (h : (calls i 0 (x.forest.listeners i) o).Returns (x.count i) y)
    (hrest : (climb is o).Returns y z) : (climb (i :: is) o).Returns x z
  | heard {i k : Nat} {o : Origin} {x : Observed} : (calls i k [] o).Returns x x
  | call {i k : Nat} {l : Listener} {ls : List Listener} {o : Origin} {x y z : Observed}
    (h : react.Returns (x.call i k l o) y) (hrest : (calls i (k + 1) ls o).Returns y z) :
    (calls i k (l :: ls) o).Returns x z
  | idle {x : Observed} : react.Returns x x
  | subscribe {i : Nat} {x y : Observed} (hi : i < x.forest.size) (l : Listener)
    (hrest : react.Returns (x.subscribe i l) y) : react.Returns x y
  | relay {i : Nat} {o : Origin} {x y z : Observed} (h : (notify i o).Returns x y)
    (hrest : react.Returns y z) : react.Returns x z

/-! ## Forests that grow -/

namespace Forest

variable (f : Forest) (i j : Nat)

theorem size_count : (f.count i).size = f.size := by simp [size, count]

theorem size_subscribe (l : Listener) : (f.subscribe i l).size = f.size := by
  simp [size, subscribe]

/-- A signal that is there counts one change, and no other does. -/
theorem emittedAt_count_there {f : Forest} {i : Nat} (hi : i < f.size) (j : Nat) :
    (f.count i).emittedAt j = f.emittedAt j + if i = j then 1 else 0 := by
  by_cases hj : j < f.size
  · exact f.emittedAt_count i j hj
  · have hne : i ≠ j := by omega
    have hle : f.size ≤ j := Nat.le_of_not_lt hj
    rw [emittedAt_of_size_le hle, emittedAt_of_size_le (by rwa [size_count]), if_neg hne]

theorem listeners_subscribe {f : Forest} {i : Nat} (hi : i < f.size) (l : Listener) (j : Nat) :
    (f.subscribe i l).listeners j = f.listeners j ++ if i = j then [l] else [] := by
  unfold listeners
  rw [signals_subscribe]
  by_cases hij : i = j
  · subst hij
    have hsignal : f.signals[i]? = some f.signals[i] := List.getElem?_eq_getElem hi
    simp [hsignal]
  · simp [hij]

end Forest

/-! ## What is owed -/

namespace Task

/-- The deliveries a task has yet to make. -/
def climbs : Task → List Nat
  | climb is _ => is
  | _ => []

/-- The calls owed to listener `m` of a signal, with those the task has yet to make. -/
def owes (owed : Nat → Nat → Nat) : Task → Nat → Nat → Nat
  | calls i k ls _ => fun j m => owed j m + if j = i ∧ k ≤ m ∧ m < k + ls.length then 1 else 0
  | _ => owed

@[simp]
theorem owes_calls (owed : Nat → Nat → Nat) (i k : Nat) (ls : List Listener) (o : Origin)
    (j m : Nat) : (calls i k ls o).owes owed j m =
      owed j m + if j = i ∧ k ≤ m ∧ m < k + ls.length then 1 else 0 := rfl

theorem owes_nil (owed : Nat → Nat → Nat) (i k : Nat) (o : Origin) :
    (calls i k [] o).owes owed = owed := by
  funext j m
  rw [owes_calls, if_neg (by simp only [List.length_nil]; omega), Nat.add_zero]

end Task

namespace Observed

/-- The book is right, but for the calls that are owed to listeners and the deliveries that are on
their way. -/
structure Balanced (owed : Nat → Nat → Nat) (climbs : List Nat) (x : Observed) : Prop where
  /-- The way up leads to older signals. -/
  descends : ∀ i, (x.forest.chain i).Pairwise (· > ·)
  climbs_lt : ∀ i ∈ climbs, i < x.forest.size
  notified_lt : ∀ i ∈ x.book.notified, i < x.forest.size
  length : ∀ j, (x.book.since j).length = (x.forest.listeners j).length
  called : ∀ j k since, (x.book.since j)[k]? = some since →
    since + x.book.heard.count (j, k) + owed j k = x.forest.emittedAt j
  absent : ∀ j k, (x.book.since j).length ≤ k → x.book.heard.count (j, k) = 0 ∧ owed j k = 0
  tally : ∀ j, x.forest.emittedAt j + climbs.count j =
    x.book.notified.countP fun i => j ∈ x.forest.chain i

namespace Balanced

variable {x : Observed} {owed : Nat → Nat → Nat} {climbs : List Nat} {i : Nat}

theorem chain_lt (h : x.Balanced owed climbs) : ∀ j ∈ x.forest.chain i, j < x.forest.size := by
  intro j hj
  have hdescends := h.descends i
  cases hs : x.forest.signals[i]? with
  | none =>
    rw [Forest.chain, hs] at hj
    cases hj
  | some s =>
    have hi : i < x.forest.size := (List.getElem?_eq_some_iff.mp hs).1
    rw [Forest.chain, hs] at hj hdescends
    rcases List.mem_cons.mp hj with rfl | hj
    · exact hi
    · exact Nat.lt_trans (List.rel_of_pairwise_cons hdescends hj) hi

theorem count_chain (h : x.Balanced owed climbs) (j : Nat) :
    (x.forest.chain i).count j = if j ∈ x.forest.chain i then 1 else 0 := by
  have hnodup : (x.forest.chain i).Nodup := (h.descends i).imp Nat.ne_of_gt
  split
  · rename_i hj
    exact List.count_eq_one_of_mem hnodup hj
  · rename_i hj
    exact List.count_eq_zero_of_not_mem hj

/-- A notification is to be delivered all the way up. -/
theorem notify (h : x.Balanced owed climbs) (hi : i < x.forest.size) :
    (x.notify i).Balanced owed (x.forest.chain i ++ climbs) where
  descends := h.descends
  climbs_lt := List.forall_mem_append.mpr ⟨h.chain_lt, h.climbs_lt⟩
  notified_lt := List.forall_mem_append.mpr ⟨h.notified_lt, List.forall_mem_singleton.mpr hi⟩
  length := h.length
  called := h.called
  absent := h.absent
  tally j := by
    have htally := h.tally j
    have hchain := h.count_chain (i := i) j
    change x.forest.emittedAt j + (x.forest.chain i ++ climbs).count j =
      (x.book.notified ++ [i]).countP fun i => j ∈ x.forest.chain i
    simp only [List.countP_append, List.count_append, List.countP_singleton, decide_eq_true_eq]
    omega

/-- A delivery counts a change and owes a call to each listener there is. -/
theorem count (h : x.Balanced owed (i :: climbs)) (o : Origin) :
    (x.count i).Balanced ((Task.calls i 0 (x.forest.listeners i) o).owes owed) climbs where
  descends j := by
    change ((x.forest.count i).chain j).Pairwise _
    rw [Forest.chain_count]
    exact h.descends j
  climbs_lt j hj := by
    rw [Observed.count, Forest.size_count]
    exact h.climbs_lt j (List.mem_cons_of_mem i hj)
  notified_lt := by
    rw [Observed.count, Forest.size_count]
    exact h.notified_lt
  length j := by
    rw [Observed.count, Forest.listeners_count]
    exact h.length j
  called j k since hk := by
    have hcalled := h.called j k since hk
    have hlt : k < (x.book.since j).length := (List.getElem?_eq_some_iff.mp hk).1
    rw [h.length j] at hlt
    have hi := h.climbs_lt i List.mem_cons_self
    rw [Observed.count, Forest.emittedAt_count_there hi]
    rw [Task.owes_calls]
    by_cases hij : j = i
    · subst hij
      simp only [Nat.zero_le, Nat.zero_add, hlt, and_self, if_true]
      omega
    · simp only [hij, Ne.symm hij, false_and, if_false]
      omega
  absent j k hk := by
    obtain ⟨hheard, howed⟩ := h.absent j k hk
    change (x.book.since j).length ≤ k at hk
    rw [h.length j] at hk
    refine ⟨hheard, ?_⟩
    rw [Task.owes_calls, if_neg, howed]
    rintro ⟨rfl, -, hlt⟩
    omega
  tally j := by
    have htally := h.tally j
    have hi := h.climbs_lt i List.mem_cons_self
    have hchain : (fun k => decide (j ∈ (x.forest.count i).chain k)) =
        fun k => decide (j ∈ x.forest.chain k) := by
      funext k
      rw [Forest.chain_count]
    change (x.forest.count i).emittedAt j + climbs.count j =
      x.book.notified.countP fun k => j ∈ (x.forest.count i).chain k
    rw [hchain, Forest.emittedAt_count_there hi, ← htally, List.count_cons, beq_eq_decide]
    simp only [decide_eq_true_eq]
    omega

/-- A call that is made is owed no longer. -/
theorem call {k : Nat} {l : Listener} {ls : List Listener} {o : Origin}
    (h : x.Balanced ((Task.calls i k (l :: ls) o).owes owed) climbs) :
    (x.call i k l o).Balanced ((Task.calls i (k + 1) ls o).owes owed) climbs := by
  have hmade (j m : Nat) : (x.call i k l o).book.heard.count (j, m) +
      (Task.calls i (k + 1) ls o).owes owed j m =
        x.book.heard.count (j, m) + (Task.calls i k (l :: ls) o).owes owed j m := by
    change (x.book.heard ++ [(i, k)]).count (j, m) + _ = _
    rw [List.count_append, List.count_singleton, Task.owes_calls, Task.owes_calls, beq_eq_decide,
      List.length_cons]
    simp only [decide_eq_true_eq, Prod.mk.injEq]
    split <;> split <;> split <;> omega
  exact
    { h with
      called := by
        intro j m since hm
        have hcalled := h.called j m since hm
        rw [Nat.add_assoc, hmade, ← Nat.add_assoc]
        exact hcalled
      absent := by
        intro j m hm
        obtain ⟨hheard, howed⟩ := h.absent j m hm
        have hzero := hmade j m
        rw [hheard, howed] at hzero
        exact Nat.add_eq_zero_iff.mp hzero }

/-- A listener that is subscribed is owed nothing. -/
theorem subscribe (h : x.Balanced owed climbs) (hi : i < x.forest.size) (l : Listener) :
    (x.subscribe i l).Balanced owed climbs where
  descends j := by
    rw [Observed.subscribe, Forest.chain_subscribe]
    exact h.descends j
  climbs_lt := by
    rw [Observed.subscribe, Forest.size_subscribe]
    exact h.climbs_lt
  notified_lt := by
    rw [Observed.subscribe, Forest.size_subscribe]
    exact h.notified_lt
  length j := by
    have hlength := h.length j
    rw [Observed.subscribe, Book.subscribe, Forest.listeners_subscribe hi, List.length_append,
      List.length_append, hlength]
    split <;> rfl
  called j m since hm := by
    rw [Observed.subscribe, Forest.emittedAt_subscribe]
    simp only [Observed.subscribe, Book.subscribe] at hm ⊢
    rcases Nat.lt_or_ge m (x.book.since j).length with hlt | hge
    · rw [List.getElem?_append_left hlt] at hm
      exact h.called j m since hm
    · rw [List.getElem?_append_right hge] at hm
      obtain ⟨hheard, howed⟩ := h.absent j m hge
      split at hm
      · rename_i hij
        subst hij
        rw [List.getElem?_singleton] at hm
        obtain ⟨-, hm⟩ := Option.ite_none_right_eq_some.mp hm
        cases hm
        rw [hheard, howed]
        rfl
      · cases hm
  absent j m hm := by
    rw [Observed.subscribe, Book.subscribe, List.length_append] at hm
    exact h.absent j m (Nat.le_trans (Nat.le_add_right ..) hm)
  tally j := by
    have hchain : (fun k => decide (j ∈ (x.forest.subscribe i l).chain k)) =
        fun k => decide (j ∈ x.forest.chain k) := by
      funext k
      rw [Forest.chain_subscribe]
    change (x.forest.subscribe i l).emittedAt j + climbs.count j =
      x.book.notified.countP fun k => j ∈ (x.forest.subscribe i l).chain k
    rw [hchain, Forest.emittedAt_subscribe]
    exact h.tally j

end Balanced

end Observed

/-- Whatever returns leaves owed what was owed before, and has made what it owed itself. -/
theorem Task.Returns.balanced {t : Task} {x y : Observed} (h : t.Returns x y) :
    ∀ {owed climbs}, x.Balanced (t.owes owed) (t.climbs ++ climbs) → y.Balanced owed climbs := by
  induction h with
  | notify hi h ih => exact fun hx => ih (hx.notify hi)
  | arrived => exact id
  | deliver h hrest ih ihrest => exact fun hx => ihrest (ih (hx.count _))
  | heard =>
    intro owed climbs hx
    rwa [Task.owes_nil] at hx
  | call h hrest ih ihrest => exact fun hx => ihrest (ih hx.call)
  | idle => exact id
  | subscribe hi l hrest ih => exact fun hx => ih (hx.subscribe hi l)
  | relay h hrest ih ihrest => exact fun hx => ihrest (ih hx)

/-! ## What stays -/

/-- The forest has the signals it had, listeners were only added, and the notifications come after
those there were. -/
structure Observed.Later (x y : Observed) : Prop where
  size : y.forest.size = x.forest.size
  chain : ∀ i, y.forest.chain i = x.forest.chain i
  listeners : ∀ (i k : Nat) (l : Listener),
    (x.forest.listeners i)[k]? = some l → (y.forest.listeners i)[k]? = some l
  notified : x.book.notified <+: y.book.notified

namespace Observed.Later

variable {x y z : Observed}

theorem refl (x : Observed) : x.Later x :=
  ⟨rfl, fun _ => rfl, fun _ _ _ => id, List.prefix_refl _⟩

theorem trans (h : x.Later y) (h' : y.Later z) : x.Later z where
  size := h'.size.trans h.size
  chain i := (h'.chain i).trans (h.chain i)
  listeners i k l hl := h'.listeners i k l (h.listeners i k l hl)
  notified := h.notified.trans h'.notified

theorem notify (x : Observed) (i : Nat) : x.Later (x.notify i) :=
  ⟨rfl, fun _ => rfl, fun _ _ _ => id, List.prefix_append ..⟩

theorem count (x : Observed) (i : Nat) : x.Later (x.count i) where
  size := x.forest.size_count i
  chain := x.forest.chain_count i
  listeners j k l hl := by
    rw [Observed.count, Forest.listeners_count]
    exact hl
  notified := List.prefix_refl _

theorem call (x : Observed) (i k : Nat) (l : Listener) (o : Origin) : x.Later (x.call i k l o) :=
  ⟨rfl, fun _ => rfl, fun _ _ _ => id, List.prefix_refl _⟩

theorem subscribe (x : Observed) {i : Nat} (hi : i < x.forest.size) (l : Listener) :
    x.Later (x.subscribe i l) where
  size := x.forest.size_subscribe i l
  chain j := x.forest.chain_subscribe i j l
  listeners j k l' hl := by
    rw [Observed.subscribe, Forest.listeners_subscribe hi,
      List.getElem?_append_left (List.getElem?_eq_some_iff.mp hl).1]
    exact hl
  notified := List.prefix_refl _

end Observed.Later

theorem Task.Returns.later {t : Task} {x y : Observed} (h : t.Returns x y) : x.Later y := by
  induction h with
  | notify hi h ih => exact (Observed.Later.notify _ _).trans ih
  | arrived | heard | idle => exact Observed.Later.refl _
  | deliver h hrest ih ihrest => exact (Observed.Later.count _ _).trans (ih.trans ihrest)
  | call h hrest ih ihrest => exact (Observed.Later.call ..).trans (ih.trans ihrest)
  | subscribe hi l hrest ih => exact (Observed.Later.subscribe _ hi l).trans ih
  | relay h hrest ih ihrest => exact ih.trans ihrest

/-- The first notification that is noted is the one that is made. -/
theorem Task.Returns.exists_relayed {i : Nat} {o : Origin} {x y : Observed}
    (h : (Task.notify i o).Returns x y) :
    ∃ relayed, y.book.notified = x.book.notified ++ i :: relayed := by
  cases h with
  | notify hi h =>
    obtain ⟨relayed, hrelayed⟩ := h.later.notified
    exact ⟨relayed, by rw [← hrelayed, Observed.notify, Book.notify, List.append_assoc]; rfl⟩

/-! ## The log -/

/-- The tag of a listener of a signal. -/
def Forest.tag? (f : Forest) (p : Nat × Nat) : Option String :=
  (f.listeners p.1)[p.2]?.map Listener.tag

/-- Each call was written down with the tag of the listener that was called, and nothing else. -/
def Observed.Written (x : Observed) : Prop :=
  x.book.heard.map x.forest.tag? = x.forest.log.map fun e => some e.tag

/-- What was written down stays right when listeners are added. -/
theorem Observed.Written.later {x y : Observed} (h : x.Written) (hlater : x.Later y)
    (hheard : y.book.heard = x.book.heard) (hlog : y.forest.log = x.forest.log) : y.Written := by
  unfold Observed.Written
  rw [hheard, hlog, ← h]
  refine List.map_congr_left fun p hp => ?_
  obtain ⟨e, -, he⟩ : ∃ e ∈ x.forest.log, some e.tag = x.forest.tag? p := by
    rw [← List.mem_map, ← h]
    exact List.mem_map_of_mem hp
  obtain ⟨l, hl, -⟩ := Option.map_eq_some_iff.mp he.symm
  unfold Forest.tag?
  rw [hl, hlater.listeners p.1 p.2 l hl]

/-- The calls that are yet to be made are of listeners that are there. -/
def Task.Present (x : Observed) : Task → Prop
  | calls i k ls _ =>
    ∀ (m : Nat) (l : Listener), ls[m]? = some l → (x.forest.listeners i)[k + m]? = some l
  | _ => True

theorem Task.Present.later {i k : Nat} {l : Listener} {ls : List Listener} {o : Origin}
    {x y : Observed} (h : (calls i k (l :: ls) o).Present x) (hlater : x.Later y) :
    (calls i (k + 1) ls o).Present y := by
  intro m l' hl'
  rw [Nat.add_right_comm]
  exact hlater.listeners i _ l' (h (m + 1) l' hl')

/-- A call is written down as such. -/
theorem Observed.Written.call {i k : Nat} {l : Listener} {ls : List Listener} {o : Origin}
    {x : Observed} (h : x.Written) (hpresent : (Task.calls i k (l :: ls) o).Present x) :
    (x.call i k l o).Written := by
  have htag : x.forest.tag? (i, k) = some l.tag := by
    have hhead : (x.forest.listeners i)[k]? = some l := hpresent 0 l rfl
    rw [Forest.tag?, hhead]
    rfl
  change (x.book.heard ++ [(i, k)]).map x.forest.tag? =
    (x.forest.log ++ [LogEntry.mk l.tag o]).map fun e => some e.tag
  rw [List.map_append, List.map_append, h, List.map_singleton, List.map_singleton, htag]

theorem Task.Returns.written {t : Task} {x y : Observed} (h : t.Returns x y) :
    t.Present x → x.Written → y.Written := by
  induction h with
  | notify hi h ih => exact fun _ hx => ih trivial (hx.later (.notify _ _) rfl rfl)
  | arrived | heard | idle => exact fun _ => id
  | @deliver i is o x y z h hrest ih ihrest =>
    intro _ hx
    have hpresent : (Task.calls i 0 (x.forest.listeners i) o).Present (x.count i) := by
      intro m l hl
      rw [Observed.count, Forest.listeners_count, Nat.zero_add]
      exact hl
    exact ihrest trivial (ih hpresent (hx.later (.count x i) rfl rfl))
  | call h hrest ih ihrest =>
    intro hpresent hx
    have hlater := (Observed.Later.call _ _ _ _ _).trans h.later
    exact ihrest (hpresent.later hlater) (ih trivial (hx.call hpresent))
  | subscribe hi l hrest ih => exact fun _ hx => ih trivial (hx.later (.subscribe _ hi l) rfl rfl)
  | relay h hrest ih ihrest => exact fun _ hx => ihrest trivial (ih trivial hx)

/-! ## The listeners there are -/

namespace Forest

variable {o : Origin} {f g : Forest}

theorem subscribe_of_size_le {i : Nat} (h : f.size ≤ i) (l : Listener) : f.subscribe i l = f := by
  rw [subscribe, List.modify_eq_self h]

/-- What a way to notify comes to is what some notification comes to, unless the signal is not there
and nothing happens. -/
def Notifies (notify : Nat → Forest → Option Forest) (o : Origin) : Prop :=
  ∀ (i : Nat) (f g : Forest), notify i f = some g → f.size ≤ i ∧ g = f ∨
    i < f.size ∧ ∀ book, ∃ book', (Task.notify i o).Returns ⟨f, book⟩ ⟨g, book'⟩

variable {notify : Nat → Forest → Option Forest}

/-- What a listener does when it is called. -/
theorem Notifies.call (hnotify : Notifies notify o) (i k : Nat) (book : Book) {l : Listener}
    (h : call notify o f l = some g) :
    ∃ book', Task.react.Returns ((Observed.mk f book).call i k l o) ⟨g, book'⟩ := by
  cases l with
  | plain tag =>
    cases h
    exact ⟨_, .idle⟩
  | subscriber tag inner =>
    cases h
    rcases Nat.lt_or_ge inner f.size with hlt | hge
    · exact ⟨_, .subscribe hlt (.plain (innerTag tag)) .idle⟩
    · rw [subscribe_of_size_le (f := f.write (Listener.subscriber tag inner).tag o) hge]
      exact ⟨_, .idle⟩
  | relay tag target =>
    obtain ⟨-, rfl⟩ | ⟨-, hreturns⟩ := hnotify _ _ _ h
    · exact ⟨_, .idle⟩
    · obtain ⟨book', hreturns⟩ := hreturns (book.call i k)
      exact ⟨book', .relay hreturns .idle⟩

theorem Notifies.calls (hnotify : Notifies notify o) (i : Nat) :
    ∀ {ls : List Listener} {f : Forest} (k : Nat) (book : Book),
      ls.foldlM (Forest.call notify o) f = some g →
        ∃ book', (Task.calls i k ls o).Returns ⟨f, book⟩ ⟨g, book'⟩
  | [], _, _, book, h => by
    cases h
    exact ⟨book, .heard⟩
  | l :: ls, f, k, book, h => by
    rw [List.foldlM_cons] at h
    obtain ⟨g', hcall, hrest⟩ := Option.bind_eq_some_iff.mp h
    obtain ⟨book', hreact⟩ := hnotify.call i k book hcall
    obtain ⟨book'', hreturns⟩ := Notifies.calls hnotify i (k + 1) book' hrest
    exact ⟨book'', .call hreact hreturns⟩

theorem Notifies.climb (hnotify : Notifies notify o) :
    ∀ {is : List Nat} {f : Forest} (book : Book), is.foldlM (deliver notify o) f = some g →
      ∃ book', (Task.climb is o).Returns ⟨f, book⟩ ⟨g, book'⟩
  | [], _, book, h => by
    cases h
    exact ⟨book, .arrived⟩
  | i :: is, f, book, h => by
    rw [List.foldlM_cons] at h
    obtain ⟨g', hdeliver, hrest⟩ := Option.bind_eq_some_iff.mp h
    obtain ⟨book', hcalls⟩ := hnotify.calls i 0 book hdeliver
    obtain ⟨book'', hreturns⟩ := Notifies.climb hnotify book' hrest
    exact ⟨book'', .deliver hcalls hreturns⟩

/-- By induction on the depth: changes are passed on one level less deep. -/
theorem notifies_notifyWithin (o : Origin) : ∀ depth, Notifies (notifyWithin o depth) o
  | 0 => fun _ _ _ h => nomatch h
  | depth + 1 => fun i f g h => by
    rcases Nat.lt_or_ge i f.size with hlt | hge
    · refine .inr ⟨hlt, fun book => ?_⟩
      obtain ⟨book', hclimb⟩ := (notifies_notifyWithin o depth).climb (book.notify i) h
      exact ⟨book', .notify hlt hclimb⟩
    · rw [notifyWithin, chain_of_size_le hge] at h
      cases h
      exact .inl ⟨hge, rfl⟩

/-- A notification that returns is one of those above. -/
theorem returns_notify {i : Nat} (hi : i < f.size) (h : f.notify i o = some g) (book : Book) :
    ∃ book', (Task.notify i o).Returns ⟨f, book⟩ ⟨g, book'⟩ := by
  obtain ⟨hge, -⟩ | ⟨-, hreturns⟩ := notifies_notifyWithin o _ i f g h
  · omega
  · exact hreturns book

end Forest

end SceneScript
