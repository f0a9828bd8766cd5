import SceneScript.Proofs.Notify.Deliveries

/-! Deliveries counted over whole runs. Signals are made, cloned, dropped, subscribed to and
notified through handles, in any order, and a book is kept from the beginning on. Whenever no
delivery is under way the book is exact: a signal has counted the notifications that were made at it
or below it, and a listener was called once for each change counted since it was subscribed. Handles
only name signals, so that a clone shares everything with what it was cloned from, and a dropped
handle makes no difference to what is done with the others. -/

namespace SceneScript

/-! ## A signal more -/

/-- What is behind a list that was made longer by one. -/
theorem getElem?_concat {α : Type} (as : List α) (a : α) (j : Nat) :
    (as ++ [a])[j]? = if j = as.length then some a else as[j]? := by
  rcases Nat.lt_trichotomy j as.length with hlt | rfl | hgt
  · rw [List.getElem?_append_left hlt, if_neg (Nat.ne_of_lt hlt)]
  · rw [if_pos rfl]
    exact List.getElem?_concat_length
  · rw [if_neg (Nat.ne_of_gt hgt), List.getElem?_eq_none (Nat.le_of_lt hgt),
      List.getElem?_eq_none (by rw [List.length_append]; exact hgt)]

namespace Forest

/-- A new signal with these ancestors. -/
def push (f : Forest) (above : List Nat) : Forest :=
  { f with signals := f.signals ++ [⟨above, [], 0⟩] }

theorem addChild_eq {f : Forest} {i : Nat} (hi : i < f.size) :
    f.addChild i = f.push (f.chain i) := by
  have hsignal : f.signals[i]? = some f.signals[i] := List.getElem?_eq_getElem hi
  simp only [addChild, push, chain, hsignal]

variable (f : Forest) (above : List Nat) (j : Nat)

theorem size_push : (f.push above).size = f.size + 1 := by simp [size, push]

theorem signals_push : (f.push above).signals[j]? =
    if j = f.size then some ⟨above, [], 0⟩ else f.signals[j]? := getElem?_concat ..

theorem chain_push : (f.push above).chain j =
    if j = f.size then f.size :: above else f.chain j := by
  unfold chain
  rw [signals_push]
  by_cases hj : j = f.size
  · subst hj
    simp only [if_true]
  · simp only [if_neg hj]

theorem listeners_push : (f.push above).listeners j = f.listeners j := by
  by_cases hj : j = f.size
  · subst hj
    rw [listeners_of_size_le (Nat.le_refl _)]
    unfold listeners
    rw [signals_push, if_pos rfl]
    rfl
  · unfold listeners
    rw [signals_push, if_neg hj]

theorem emittedAt_push : (f.push above).emittedAt j = f.emittedAt j := by
  by_cases hj : j = f.size
  · subst hj
    rw [emittedAt_of_size_le (Nat.le_refl _)]
    unfold emittedAt
    rw [signals_push, if_pos rfl]
    rfl
  · unfold emittedAt
    rw [signals_push, if_neg hj]

end Forest

namespace Observed

/-- A new signal, which nobody was notified at. -/
def push (x : Observed) (above : List Nat) : Observed := { x with forest := x.forest.push above }

theorem Balanced.push {x : Observed} {owed : Nat → Nat → Nat} {climbs above : List Nat}
    (h : x.Balanced owed climbs) (habove : above.Pairwise (· > ·))
    (hlt : ∀ j ∈ above, j < x.forest.size) : (x.push above).Balanced owed climbs where
  descends i := by
    rw [Observed.push, Forest.chain_push]
    split
    · exact habove.cons hlt
    · exact h.descends i
  climbs_lt i hi := by
    rw [Observed.push, Forest.size_push]
    exact Nat.lt_succ_of_lt (h.climbs_lt i hi)
  notified_lt i hi := by
    rw [Observed.push, Forest.size_push]
    exact Nat.lt_succ_of_lt (h.notified_lt i hi)
  length j := by
    rw [Observed.push, Forest.listeners_push]
    exact h.length j
  called := by
    intro j k since hk
    rw [Observed.push, Forest.emittedAt_push]
    exact h.called j k since hk
  absent := h.absent
  tally j := by
    have hold : x.book.notified.countP (fun i => decide (j ∈ (x.forest.push above).chain i)) =
        x.book.notified.countP fun i => decide (j ∈ x.forest.chain i) := by
      refine List.countP_congr fun i hi => ?_
      rw [Forest.chain_push, if_neg (Nat.ne_of_lt (h.notified_lt i hi))]
    change (x.forest.push above).emittedAt j + climbs.count j =
      x.book.notified.countP fun i => j ∈ (x.forest.push above).chain i
    rw [hold, Forest.emittedAt_push]
    exact h.tally j

theorem Written.push {x : Observed} (h : x.Written) (above : List Nat) : (x.push above).Written := by
  have htag : (x.forest.push above).tag? = x.forest.tag? := by
    funext p
    rw [Forest.tag?, Forest.tag?, Forest.listeners_push]
  change x.book.heard.map (x.forest.push above).tag? = x.forest.log.map fun e => some e.tag
  rw [htag]
  exact h

end Observed

/-! ## What is done with handles -/

/-- The handles and the signals, with the book of what happened. -/
structure Ledger where
  notifiers : Notifiers
  book : Book

namespace Ledger

/-- One root, and nothing happened. -/
def begin : Ledger := ⟨.new, .empty⟩

variable (n : Ledger)

def forest : Forest := n.notifiers.forest

def observed : Observed := ⟨n.forest, n.book⟩

def addRoot : Ledger := { n with notifiers := n.notifiers.addRoot }

def addChild (parent : Nat) : Ledger := { n with notifiers := n.notifiers.addChild parent }

def clone (i : Nat) : Ledger := { n with notifiers := n.notifiers.clone i }

def drop (handle : Nat) : Ledger := { n with notifiers := n.notifiers.drop handle }

/-- The changes the signal has counted are noted. -/
def subscribe (i : Nat) (l : Listener) : Ledger :=
  ⟨n.notifiers.subscribe i l, n.book.subscribe i (n.forest.emittedAt i)⟩

/-- What deliveries have left. -/
def become (x : Observed) : Ledger := ⟨{ n.notifiers with forest := x.forest }, x.book⟩

end Ledger

inductive Use
  | root
  | child (handle : Nat)
  | clone (handle : Nat)
  | drop (handle : Nat)
  | subscribe (handle : Nat) (l : Listener)
  | notify (handle : Nat) (o : Origin)

namespace Use

def handle? : Use → Option Nat
  | root => none
  | child h | clone h | drop h | subscribe h _ | notify h _ => some h

/-- A use of a handle that is held, the listeners doing what they want. -/
def Takes : Use → Ledger → Ledger → Prop
  | root, n, m => m = n.addRoot
  | child h, n, m => ∃ i, n.notifiers.signal? h = some i ∧ m = n.addChild i
  | clone h, n, m => ∃ i, n.notifiers.signal? h = some i ∧ m = n.clone i
  | drop h, n, m => ∃ i, n.notifiers.signal? h = some i ∧ m = n.drop h
  | subscribe h l, n, m => ∃ i, n.notifiers.signal? h = some i ∧ m = n.subscribe i l
  | notify h o, n, m =>
    ∃ i, n.notifiers.signal? h = some i ∧
      ∃ x, (Task.notify i o).Returns n.observed x ∧ m = n.become x

/-- The same where the listeners are those of the forest; nothing for a handle that is not held and
for a notification that does not return. -/
def apply (n : Notifiers) : Use → Option Notifiers
  | root => some n.addRoot
  | child h => (n.signal? h).map n.addChild
  | clone h => (n.signal? h).map n.clone
  | drop h => (n.signal? h).map fun _ => n.drop h
  | subscribe h l => (n.signal? h).map fun i => n.subscribe i l
  | notify h o => (n.signal? h).bind fun i => n.notify i o

end Use

/-- Uses one after the other. -/
def Runs : List Use → Ledger → Ledger → Prop
  | [], n, m => m = n
  | u :: us, n, m => ∃ k, u.Takes n k ∧ Runs us k m

namespace Notifiers

theorem signal?_concat (f : Forest) (handles : List (Option Nat)) (i h : Nat) :
    signal? ⟨f, handles ++ [some i]⟩ h =
      if h = handles.length then some i else signal? ⟨f, handles⟩ h := by
  unfold signal?
  rw [getElem?_concat]
  split <;> rfl

theorem signal?_drop (n : Notifiers) (k h : Nat) :
    (n.drop k).signal? h = if k = h then none else n.signal? h := by
  unfold signal? drop
  rw [List.getElem?_set]
  split
  · split <;> rfl
  · rfl

end Notifiers

/-! ## The book is exact -/

/-- What holds whenever no delivery is under way. -/
structure Ledger.Sound (n : Ledger) : Prop where
  balanced : n.observed.Balanced (fun _ _ => 0) []
  written : n.observed.Written
  held : ∀ h i, n.notifiers.signal? h = some i → i < n.forest.size

namespace Ledger.Sound

variable {n : Ledger} {i : Nat}

theorem begin : Ledger.begin.Sound where
  balanced :=
    { descends := by
        intro i
        change (Forest.empty.push []).chain i |>.Pairwise _
        rw [Forest.chain_push]
        split
        · exact List.pairwise_singleton ..
        · rw [Forest.chain_of_size_le (Nat.zero_le i)]
          exact .nil
      climbs_lt := fun _ hi => nomatch hi
      notified_lt := fun _ hi => nomatch hi
      length := by
        intro j
        change _ = ((Forest.empty.push []).listeners j).length
        rw [Forest.listeners_push, Forest.listeners_of_size_le (Nat.zero_le j)]
        rfl
      called := fun _ _ _ hk => nomatch hk
      absent := fun _ _ _ => ⟨rfl, rfl⟩
      tally := by
        intro j
        change (Forest.empty.push []).emittedAt j + _ = _
        rw [Forest.emittedAt_push, Forest.emittedAt_of_size_le (Nat.zero_le j)]
        rfl }
  written := rfl
  held := by
    intro h i hi
    obtain ⟨hlt, rfl⟩ : h < 1 ∧ 0 = i := by
      cases h with
      | zero => exact ⟨Nat.one_pos, Option.some.inj hi⟩
      | succ h => cases hi
    exact Nat.one_pos

/-- A signal more, and a handle for it. -/
theorem push (h : n.Sound) {above : List Nat} (habove : above.Pairwise (· > ·))
    (hlt : ∀ j ∈ above, j < n.forest.size) :
    Ledger.Sound ⟨⟨n.forest.push above, n.notifiers.handles ++ [some n.forest.size]⟩, n.book⟩ where
  balanced := h.balanced.push habove hlt
  written := h.written.push above
  held k i hi := by
    change i < (n.forest.push above).size
    rw [Notifiers.signal?_concat] at hi
    rw [Forest.size_push]
    split at hi
    · cases hi
      exact Nat.lt_succ_self _
    · exact Nat.lt_succ_of_lt (h.held k i hi)

theorem addChild (h : n.Sound) (hi : i < n.forest.size) : (n.addChild i).Sound := by
  have hpush := h.push (h.balanced.descends i) h.balanced.chain_lt
  change Ledger.Sound ⟨⟨n.forest.addChild i, _⟩, n.book⟩
  rw [Forest.addChild_eq hi]
  exact hpush

theorem clone (h : n.Sound) (hi : i < n.forest.size) : (n.clone i).Sound where
  balanced := h.balanced
  written := h.written
  held k j hj := by
    rw [Ledger.clone, Notifiers.clone, Notifiers.signal?_concat] at hj
    split at hj
    · cases hj
      exact hi
    · exact h.held k j hj

theorem drop (h : n.Sound) (handle : Nat) : (n.drop handle).Sound where
  balanced := h.balanced
  written := h.written
  held k j hj := by
    rw [Ledger.drop, Notifiers.signal?_drop] at hj
    exact h.held k j (Option.ite_none_left_eq_some.mp hj).2

theorem subscribe (h : n.Sound) (hi : i < n.forest.size) (l : Listener) :
    (n.subscribe i l).Sound where
  balanced := h.balanced.subscribe hi l
  written := h.written.later (.subscribe n.observed hi l) rfl rfl
  held k j hj := by
    change j < (n.forest.subscribe i l).size
    rw [Forest.size_subscribe]
    exact h.held k j hj

theorem become (h : n.Sound) {o : Origin} {x : Observed}
    (hreturns : (Task.notify i o).Returns n.observed x) : (n.become x).Sound where
  balanced := hreturns.balanced h.balanced
  written := hreturns.written trivial h.written
  held k j hj := by
    change j < x.forest.size
    rw [hreturns.later.size]
    exact h.held k j hj

end Ledger.Sound

theorem Use.Takes.sound {u : Use} {n m : Ledger} (h : u.Takes n m) (hn : n.Sound) : m.Sound := by
  cases u with
  | root =>
    cases h
    exact hn.push .nil fun _ hj => nomatch hj
  | child k =>
    obtain ⟨i, hi, rfl⟩ := h
    exact hn.addChild (hn.held k i hi)
  | clone k =>
    obtain ⟨i, hi, rfl⟩ := h
    exact hn.clone (hn.held k i hi)
  | drop k =>
    obtain ⟨i, -, rfl⟩ := h
    exact hn.drop k
  | subscribe k l =>
    obtain ⟨i, hi, rfl⟩ := h
    exact hn.subscribe (hn.held k i hi) l
  | notify k o =>
    obtain ⟨i, -, x, hx, rfl⟩ := h
    exact hn.become hx

theorem Runs.sound : ∀ {us : List Use} {n m : Ledger}, Runs us n m → n.Sound → m.Sound
  | [], _, _, rfl, hn => hn
  | _ :: _, _, _, ⟨_, htakes, hruns⟩, hn => Runs.sound hruns (htakes.sound hn)

/-- What the book says is so. -/
structure Ledger.Exact (n : Ledger) : Prop where
  /-- A signal counted the notifications made at it or below it. -/
  counted : ∀ j, n.forest.emittedAt j = n.book.notified.countP fun i => j ∈ n.forest.chain i
  listeners : ∀ j, (n.book.since j).length = (n.forest.listeners j).length
  /-- A listener was called once for each change counted since it was subscribed. -/
  called : ∀ j k since, (n.book.since j)[k]? = some since →
    since ≤ n.forest.emittedAt j ∧ n.book.heard.count (j, k) = n.forest.emittedAt j - since
  /-- The log shows these calls and no others. -/
  written : n.book.heard.map n.forest.tag? = n.forest.log.map fun e => some e.tag

theorem Ledger.Sound.exact {n : Ledger} (h : n.Sound) : n.Exact where
  counted j := h.balanced.tally j
  listeners := h.balanced.length
  called := by
    intro j k since hk
    have hcalled : since + n.book.heard.count (j, k) + 0 = n.forest.emittedAt j :=
      h.balanced.called j k since hk
    omega
  written := h.written

/-! ## Notifications -/

/-- What a notification has counted: itself and those that listeners made meanwhile. -/
theorem Use.Takes.exists_relayed {h i : Nat} {o : Origin} {n m : Ledger} (hn : n.Sound)
    (hi : n.notifiers.signal? h = some i) (htakes : (Use.notify h o).Takes n m) :
    ∃ relayed, m.book.notified = n.book.notified ++ i :: relayed ∧
      ∀ j, m.forest.emittedAt j = n.forest.emittedAt j +
        (i :: relayed).countP fun k => j ∈ n.forest.chain k := by
  have hm := htakes.sound hn
  obtain ⟨i', hi', x, hx, rfl⟩ := htakes
  cases hi.symm.trans hi'
  obtain ⟨relayed, hrelayed⟩ := hx.exists_relayed
  refine ⟨relayed, hrelayed, fun j => ?_⟩
  have hchain : (n.become x).forest.chain = n.forest.chain := funext hx.later.chain
  have hnotified : (n.become x).book.notified = n.book.notified ++ i :: relayed := hrelayed
  rw [hm.exact.counted j, hn.exact.counted j, hchain, hnotified, List.countP_append]

/-- What the handles do with the listeners of the forest is one way to use them. -/
theorem Use.exists_takes {u : Use} {n : Ledger} {k : Notifiers} (hn : n.Sound)
    (h : u.apply n.notifiers = some k) : ∃ book, u.Takes n ⟨k, book⟩ := by
  cases u with
  | root =>
    cases h
    exact ⟨n.book, rfl⟩
  | child handle | clone handle | drop handle =>
    obtain ⟨i, hi, rfl⟩ := Option.map_eq_some_iff.mp h
    exact ⟨n.book, i, hi, rfl⟩
  | subscribe handle l =>
    obtain ⟨i, hi, rfl⟩ := Option.map_eq_some_iff.mp h
    exact ⟨(n.subscribe i l).book, i, hi, rfl⟩
  | notify handle o =>
    obtain ⟨i, hi, hnotify⟩ := Option.bind_eq_some_iff.mp h
    obtain ⟨f, hf, rfl⟩ := Option.map_eq_some_iff.mp hnotify
    obtain ⟨book, hreturns⟩ := Forest.returns_notify (hn.held handle i hi) hf n.book
    exact ⟨book, i, hi, ⟨f, book⟩, hreturns, rfl⟩

theorem Runs.exists_of_apply : ∀ {us : List Use} {n : Ledger} {k : Notifiers}, n.Sound →
    us.foldlM Use.apply n.notifiers = some k → ∃ book, Runs us n ⟨k, book⟩
  | [], n, _, _, h => by
    cases h
    exact ⟨n.book, rfl⟩
  | u :: us, n, k, hn, h => by
    rw [List.foldlM_cons] at h
    obtain ⟨k', happly, hrest⟩ := Option.bind_eq_some_iff.mp h
    obtain ⟨book, htakes⟩ := Use.exists_takes hn happly
    obtain ⟨book', hruns⟩ := Runs.exists_of_apply (htakes.sound hn) hrest
    exact ⟨book', _, htakes, hruns⟩

/-! ## Handles -/

/-- A handle stands for its signal as long as it is held, and once dropped it is not held again. -/
theorem Use.Takes.signal? {u : Use} {n m : Ledger} {h i : Nat} (htakes : u.Takes n m)
    (hlt : h < n.notifiers.handles.length) (hi : m.notifiers.signal? h = some i) :
    n.notifiers.signal? h = some i := by
  have hconcat {f : Forest} {j : Nat}
      (hi : Notifiers.signal? ⟨f, n.notifiers.handles ++ [some j]⟩ h = some i) :
      n.notifiers.signal? h = some i := by
    rwa [Notifiers.signal?_concat, if_neg (Nat.ne_of_lt hlt)] at hi
  cases u with
  | root =>
    cases htakes
    exact hconcat hi
  | child | clone =>
    obtain ⟨j, -, rfl⟩ := htakes
    exact hconcat hi
  | drop k =>
    obtain ⟨j, -, rfl⟩ := htakes
    rw [Ledger.drop, Notifiers.signal?_drop] at hi
    exact (Option.ite_none_left_eq_some.mp hi).2
  | subscribe =>
    obtain ⟨j, -, rfl⟩ := htakes
    exact hi
  | notify =>
    obtain ⟨j, -, x, -, rfl⟩ := htakes
    exact hi

theorem Use.Takes.length_le {u : Use} {n m : Ledger} (h : u.Takes n m) :
    n.notifiers.handles.length ≤ m.notifiers.handles.length := by
  cases u with
  | root =>
    cases h
    exact List.length_append ▸ Nat.le_add_right ..
  | child | clone =>
    obtain ⟨i, -, rfl⟩ := h
    exact List.length_append ▸ Nat.le_add_right ..
  | drop =>
    obtain ⟨i, -, rfl⟩ := h
    exact List.length_set ▸ Nat.le_refl _
  | subscribe =>
    obtain ⟨i, -, rfl⟩ := h
    exact Nat.le_refl _
  | notify =>
    obtain ⟨i, -, x, -, rfl⟩ := h
    exact Nat.le_refl _

theorem Runs.signal? {h i : Nat} : ∀ {us : List Use} {n m : Ledger}, Runs us n m →
    h < n.notifiers.handles.length → m.notifiers.signal? h = some i →
      n.notifiers.signal? h = some i
  | [], _, _, rfl, _, hi => hi
  | _ :: _, _, _, ⟨_, htakes, hruns⟩, hlt, hi =>
    htakes.signal? hlt (Runs.signal? hruns (Nat.lt_of_lt_of_le hlt htakes.length_le) hi)

theorem Notifiers.lt_length_of_signal? {n : Notifiers} {h i : Nat} (hi : n.signal? h = some i) :
    h < n.handles.length := by
  refine Nat.lt_of_not_le fun hle => ?_
  rw [signal?, List.getElem?_eq_none hle] at hi
  cases hi

/-- A clone and what it was cloned from stand for one signal, while they are held. -/
theorem Runs.clone_shares {us : List Use} {n m : Ledger} {h i j : Nat}
    (hi : n.notifiers.signal? h = some i) (hruns : Runs (.clone h :: us) n m)
    (hj : m.notifiers.signal? h = some j ∨
      m.notifiers.signal? n.notifiers.handles.length = some j) : j = i := by
  obtain ⟨k, htakes, hruns⟩ := hruns
  obtain ⟨i', hi', rfl⟩ := htakes
  cases hi.symm.trans hi'
  have hlength : (n.clone i).notifiers.handles.length = n.notifiers.handles.length + 1 :=
    List.length_append
  have hlt := Notifiers.lt_length_of_signal? hi
  rcases hj with hj | hj
  · have hold := hruns.signal? (by omega) hj
    rw [Ledger.clone, Notifiers.clone, Notifiers.signal?_concat, if_neg (Nat.ne_of_lt hlt)] at hold
    exact Option.some.inj (hold.symm.trans hi)
  · have hnew := hruns.signal? (by omega) hj
    rw [Ledger.clone, Notifiers.clone, Notifiers.signal?_concat, if_pos rfl] at hnew
    exact (Option.some.inj hnew).symm

/-! ## Dropping -/

variable {n m : Ledger} {k : Nat}

theorem Notifiers.concat_drop {n : Notifiers} (hk : k < n.handles.length) (f : Forest) (i : Nat) :
    (⟨f, (n.drop k).handles ++ [some i]⟩ : Notifiers) =
      Notifiers.drop ⟨f, n.handles ++ [some i]⟩ k := by
  unfold Notifiers.drop
  rw [List.set_append_left _ _ hk]

/-- What is done with other handles is the same whether or not this one was dropped before. -/
theorem Use.takes_drop {u : Use} (hk : k < n.notifiers.handles.length) (hu : u.handle? ≠ some k) :
    u.Takes (n.drop k) m ↔ ∃ m', u.Takes n m' ∧ m = m'.drop k := by
  have hother {h : Nat} (hh : some h ≠ some k) :
      (n.drop k).notifiers.signal? h = n.notifiers.signal? h := by
    rw [Ledger.drop, Notifiers.signal?_drop, if_neg fun hkh => hh (congrArg some hkh.symm)]
  have hconcat (f : Forest) (i : Nat) :
      (⟨⟨f, (n.notifiers.drop k).handles ++ [some i]⟩, n.book⟩ : Ledger) =
        Ledger.drop ⟨⟨f, n.notifiers.handles ++ [some i]⟩, n.book⟩ k :=
    congrArg (Ledger.mk · n.book) (Notifiers.concat_drop hk f i)
  cases u with
  | root =>
    have hroot : (n.drop k).addRoot = n.addRoot.drop k := hconcat _ _
    simp only [Takes, exists_eq_left, hroot]
  | child h =>
    have hchild (i : Nat) : (n.drop k).addChild i = (n.addChild i).drop k := hconcat _ _
    simp only [Takes, hother hu, hchild]
    grind
  | clone h =>
    have hclone (i : Nat) : (n.drop k).clone i = (n.clone i).drop k := hconcat _ _
    simp only [Takes, hother hu, hclone]
    grind
  | drop h =>
    have hne : k ≠ h := fun hkh => hu (congrArg some hkh.symm)
    have hdrop : (n.drop k).drop h = (n.drop h).drop k := by
      simp only [Ledger.drop, Notifiers.drop, List.set_comm none none hne]
    simp only [Takes, hother hu, hdrop]
    grind
  | subscribe h l =>
    have hsubscribe (i : Nat) : (n.drop k).subscribe i l = (n.subscribe i l).drop k := rfl
    simp only [Takes, hother hu, hsubscribe]
    grind
  | notify h o =>
    have hbecome (x : Observed) : (n.drop k).become x = (n.become x).drop k := rfl
    have hwatched : (n.drop k).observed = n.observed := rfl
    simp only [Takes, hother hu, hbecome, hwatched]
    grind

theorem Runs.drop_iff : ∀ {us : List Use} {n m : Ledger}, k < n.notifiers.handles.length →
    (∀ u ∈ us, u.handle? ≠ some k) →
      (Runs us (n.drop k) m ↔ ∃ m', Runs us n m' ∧ m = m'.drop k)
  | [], _, _, _, _ => by simp only [Runs, exists_eq_left]
  | u :: us, n, m, hk, hus => by
    obtain ⟨hu, hrest⟩ := List.forall_mem_cons.mp hus
    constructor
    · rintro ⟨_, hdropped, hthen⟩
      obtain ⟨n', htakes, rfl⟩ := (Use.takes_drop hk hu).mp hdropped
      have hk' := Nat.lt_of_lt_of_le hk htakes.length_le
      obtain ⟨m', hruns, rfl⟩ := (Runs.drop_iff hk' hrest).mp hthen
      exact ⟨m', ⟨n', htakes, hruns⟩, rfl⟩
    · rintro ⟨m', ⟨n', htakes, hruns⟩, rfl⟩
      have hk' := Nat.lt_of_lt_of_le hk htakes.length_le
      exact ⟨n'.drop k, (Use.takes_drop hk hu).mpr ⟨n', htakes, rfl⟩,
        (Runs.drop_iff hk' hrest).mpr ⟨m', hruns, rfl⟩⟩

/-! ## No delivery is lost or made twice -/

/-- Whatever is done with handles from the beginning on, and whatever listeners do while it is done,
the book is exact at the end, and
- a notification that returns leaves it exact, and every signal has then counted those of the
  notifications made meanwhile, this one first, that were made at it or below it;
- the forest's own listeners are a case of this: wherever the handles come to with them, some book
  is kept of it;
- a handle and its clone stand for one signal as long as they are held;
- that a handle is dropped changes nothing of what is done with the others afterwards. -/
theorem Ledger.deliveries_exact {us : List Use} {n : Ledger} (h : Runs us .begin n) :
    n.Exact ∧
    (∀ {k i : Nat} {o : Origin} {m : Ledger}, n.notifiers.signal? k = some i →
      (Use.notify k o).Takes n m → m.Exact ∧ ∃ relayed,
        m.book.notified = n.book.notified ++ i :: relayed ∧
          ∀ j, m.forest.emittedAt j = n.forest.emittedAt j +
            (i :: relayed).countP fun r => j ∈ n.forest.chain r) ∧
    (∀ {vs : List Use} {notifiers : Notifiers},
      vs.foldlM Use.apply n.notifiers = some notifiers →
        ∃ book, Runs vs n ⟨notifiers, book⟩ ∧ Ledger.Exact ⟨notifiers, book⟩) ∧
    (∀ {vs : List Use} {k i j : Nat} {m : Ledger}, n.notifiers.signal? k = some i →
      Runs (.clone k :: vs) n m →
        m.notifiers.signal? k = some j ∨
          m.notifiers.signal? n.notifiers.handles.length = some j → j = i) ∧
    (∀ {vs : List Use} {k i : Nat} {m : Ledger}, n.notifiers.signal? k = some i →
      (∀ v ∈ vs, v.handle? ≠ some k) →
        (Runs vs (n.drop k) m ↔ ∃ m', Runs vs n m' ∧ m = m'.drop k)) := by
  have hn : n.Sound := h.sound .begin
  refine ⟨hn.exact, ?_, ?_, ?_, ?_⟩
  · intro k i o m hi htakes
    exact ⟨(htakes.sound hn).exact, htakes.exists_relayed hn hi⟩
  · intro vs notifiers happly
    obtain ⟨book, hruns⟩ := Runs.exists_of_apply hn happly
    exact ⟨book, hruns, (hruns.sound hn).exact⟩
  · intro vs k i j m hi hruns hj
    exact hruns.clone_shares hi hj
  · intro vs k i m hi hvs
    exact Runs.drop_iff (Notifiers.lt_length_of_signal? hi) hvs

/-- A signal below the first one is notified, a listener having been subscribed at the first. -/
def sampleUses : List Use := [.child 0, .subscribe 0 (.plain "outer"), .notify 1 .control]

/-- When it is first called, the listener subscribes another at the lower signal and notifies that
signal again, so that it is called a second time before it is done. -/
theorem sampleUses_exact : ∃ n, Runs sampleUses .begin n ∧ n.forest.emittedAt 0 = 2 ∧
    n.forest.emittedAt 1 = 2 ∧ n.book.notified = [1, 1] ∧ n.book.since 0 = [0] ∧
      n.book.since 1 = [1] ∧ n.book.heard = [(0, 0), (1, 0), (0, 0)] ∧ n.Exact := by
  obtain ⟨x, hx, hbook⟩ : ∃ x, (Task.notify 1 .control).Returns
      ((Ledger.begin.addChild 0).subscribe 0 (.plain "outer")).observed x ∧
        x.forest.emittedAt 0 = 2 ∧ x.forest.emittedAt 1 = 2 ∧ x.book.notified = [1, 1] ∧
          x.book.since 0 = [0] ∧ x.book.since 1 = [1] ∧
            x.book.heard = [(0, 0), (1, 0), (0, 0)] := by
    refine ⟨_, .notify (by decide) (.deliver .heard (.deliver (.call
      (.subscribe (i := 1) (by decide) (.plain "inner") (.relay (i := 1) (o := .control)
        (.notify (by decide) (.deliver (.call .idle .heard) (.deliver (.call .idle .heard)
          .arrived))) .idle)) .heard) .arrived)), ?_⟩
    decide
  have hruns : Runs sampleUses .begin
      (((Ledger.begin.addChild 0).subscribe 0 (.plain "outer")).become x) :=
    ⟨_, ⟨0, rfl, rfl⟩, _, ⟨0, rfl, rfl⟩, _, ⟨1, rfl, x, hx, rfl⟩, rfl⟩
  obtain ⟨hroot, hlower, hnotified, hsince, hsince', hheard⟩ := hbook
  exact ⟨_, hruns, hroot, hlower, hnotified, hsince, hsince', hheard,
    (Ledger.deliveries_exact hruns).1⟩

end SceneScript
