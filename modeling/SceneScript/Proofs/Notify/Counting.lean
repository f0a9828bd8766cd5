import Mathlib.Data.List.Basic
import SceneScript.Notify.Forest

/-! What a notification counts. From some number on the signals of a forest may be private: no
listener listens to them or knows of them. Whatever listeners do elsewhere, a notification counts
one change for each private signal on its way up, and nothing at the others. -/

namespace SceneScript

/-- The signals a listener knows of. -/
def Listener.known : Listener → List Nat
  | plain _ => []
  | subscriber _ inner => [inner]
  | relay _ target => [target]

namespace Forest

/-- How many changes a signal counted. -/
def emittedAt (f : Forest) (i : Nat) : Nat := (f.signals[i]?.map (·.emitted)).getD 0

/-- Every signal that is mentioned in a forest is one of it. -/
def Closed (f : Forest) : Prop :=
  ∀ s ∈ f.signals, (∀ j ∈ s.above, j < f.size) ∧ ∀ l ∈ s.listeners, ∀ j ∈ l.known, j < f.size

/-- The signals from a number on are private. -/
structure Private (n : Nat) (f : Forest) : Prop where
  above : ∀ i < n, ∀ j ∈ f.chain i, j < n
  unheard : ∀ i, n ≤ i → f.listeners i = []
  known : ∀ i, ∀ l ∈ f.listeners i, ∀ j ∈ l.known, j < n

theorem chain_of_size_le {f : Forest} {i : Nat} (h : f.size ≤ i) : f.chain i = [] := by
  simp only [chain, List.getElem?_eq_none h]

theorem listeners_of_size_le {f : Forest} {i : Nat} (h : f.size ≤ i) : f.listeners i = [] := by
  simp [listeners, List.getElem?_eq_none h]

theorem emittedAt_of_size_le {f : Forest} {i : Nat} (h : f.size ≤ i) : f.emittedAt i = 0 := by
  simp [emittedAt, List.getElem?_eq_none h]

theorem exists_of_mem_listeners {f : Forest} {i : Nat} {l : Listener} (h : l ∈ f.listeners i) :
    ∃ s ∈ f.signals, l ∈ s.listeners := by
  cases hs : f.signals[i]? with
  | none =>
    simp [listeners, hs] at h
  | some s =>
    simp only [listeners, hs, Option.map_some, Option.getD_some] at h
    exact ⟨s, List.mem_of_getElem? hs, h⟩

theorem Closed.isPrivate {f : Forest} (h : f.Closed) : f.Private f.size where
  above := by
    intro i hi j hj
    have hsignal : f.signals[i]? = some f.signals[i] := List.getElem?_eq_getElem hi
    simp only [chain, hsignal, List.mem_cons] at hj
    obtain rfl | hj := hj
    · exact hi
    · exact (h _ (List.getElem_mem hi)).1 j hj
  unheard := fun i hi => listeners_of_size_le hi
  known := by
    intro i l hl j hj
    obtain ⟨s, hs, hl⟩ := exists_of_mem_listeners hl
    exact (h s hs).2 l hl j hj

/-! ## One signal at a time -/

section Updates

variable (f : Forest) (i j : Nat)

theorem signals_count : (f.count i).signals[j]? = f.signals[j]?.map fun s =>
    if i = j then { s with emitted := s.emitted + 1 } else s := by
  rw [count, List.getElem?_modify]
  by_cases hij : i = j <;> simp [hij]

theorem chain_count : (f.count i).chain j = f.chain j := by
  unfold chain
  rw [signals_count]
  cases f.signals[j]? with
  | none => rfl
  | some s => by_cases hij : i = j <;> simp [hij]

theorem listeners_count : (f.count i).listeners j = f.listeners j := by
  unfold listeners
  rw [signals_count]
  cases f.signals[j]? with
  | none => rfl
  | some s => by_cases hij : i = j <;> simp [hij]

theorem emittedAt_count (hj : j < f.size) :
    (f.count i).emittedAt j = f.emittedAt j + if i = j then 1 else 0 := by
  unfold emittedAt
  rw [signals_count, List.getElem?_eq_getElem hj]
  by_cases hij : i = j <;> simp [hij]

variable (l : Listener)

theorem signals_subscribe : (f.subscribe i l).signals[j]? = f.signals[j]?.map fun s =>
    if i = j then { s with listeners := s.listeners ++ [l] } else s := by
  rw [subscribe, List.getElem?_modify]
  by_cases hij : i = j <;> simp [hij]

theorem chain_subscribe : (f.subscribe i l).chain j = f.chain j := by
  unfold chain
  rw [signals_subscribe]
  cases f.signals[j]? with
  | none => rfl
  | some s => by_cases hij : i = j <;> simp [hij]

theorem emittedAt_subscribe : (f.subscribe i l).emittedAt j = f.emittedAt j := by
  unfold emittedAt
  rw [signals_subscribe]
  cases f.signals[j]? with
  | none => rfl
  | some s => by_cases hij : i = j <;> simp [hij]

variable {f i j l}

theorem mem_listeners_subscribe {x : Listener} (h : x ∈ (f.subscribe i l).listeners j) :
    x ∈ f.listeners j ∨ i = j ∧ x = l := by
  unfold listeners at h ⊢
  rw [signals_subscribe] at h
  cases hs : f.signals[j]? with
  | none => simp [hs] at h
  | some s =>
    rw [hs] at h
    by_cases hij : i = j
    · simpa [hij] using h
    · exact .inl (by simpa [hij] using h)

end Updates

/-! ## Counting -/

/-- What private signals notice of a notification: these signals have counted a change, each as
often as it is listed. -/
structure Counted (n : Nat) (is : List Nat) (f g : Forest) : Prop where
  size : g.size = f.size
  chain : ∀ i, g.chain i = f.chain i
  emitted : ∀ j, n ≤ j → j < f.size → g.emittedAt j = f.emittedAt j + is.count j
  isPrivate : g.Private n

variable {n : Nat} {f g k : Forest}

theorem Counted.refl (h : f.Private n) : Counted n [] f f := ⟨rfl, fun _ => rfl, by simp, h⟩

theorem Counted.trans {is js : List Nat} (hfg : Counted n is f g) (hgk : Counted n js g k) :
    Counted n (is ++ js) f k where
  size := hgk.size.trans hfg.size
  chain i := (hgk.chain i).trans (hfg.chain i)
  emitted := by
    intro j hn hj
    rw [hgk.emitted j hn (hfg.size ▸ hj), hfg.emitted j hn hj, List.count_append]
    omega
  isPrivate := hgk.isPrivate

/-- What is counted at signals that are not private is not noticed. -/
theorem Counted.elsewhere {is : List Nat} (h : Counted n is f g) (his : ∀ i ∈ is, i < n) :
    Counted n [] f g where
  size := h.size
  chain := h.chain
  emitted := by
    intro j hn hj
    have hnot : j ∉ is := fun hmem => Nat.not_lt_of_le hn (his j hmem)
    rw [h.emitted j hn hj, List.count_eq_zero.mpr hnot, List.count_nil]
  isPrivate := h.isPrivate

theorem Private.congr (h : f.Private n) (hchain : ∀ i, g.chain i = f.chain i)
    (hlisteners : ∀ i, g.listeners i = f.listeners i) : g.Private n where
  above i hi := by rw [hchain]; exact h.above i hi
  unheard i hi := by rw [hlisteners]; exact h.unheard i hi
  known i := by rw [hlisteners]; exact h.known i

theorem counted_count (h : f.Private n) (i : Nat) : Counted n [i] f (f.count i) where
  size := by simp [Forest.size, count]
  chain := f.chain_count i
  emitted := by
    intro j _ hj
    rw [emittedAt_count f i j hj]
    by_cases hij : i = j <;> simp [hij]
  isPrivate := h.congr (f.chain_count i) (f.listeners_count i)

theorem counted_write (h : f.Private n) (tag : String) (o : Origin) :
    Counted n [] f (f.write tag o) :=
  ⟨rfl, fun _ => rfl, fun _ _ _ => rfl, h.congr (fun _ => rfl) fun _ => rfl⟩

theorem counted_subscribe (h : f.Private n) {i : Nat} (hi : i < n) {l : Listener}
    (hl : ∀ j ∈ l.known, j < n) : Counted n [] f (f.subscribe i l) where
  size := by simp [Forest.size, subscribe]
  chain j := f.chain_subscribe i j l
  emitted := fun j _ _ => f.emittedAt_subscribe i j l
  isPrivate.above := by
    intro j hj
    rw [chain_subscribe]
    exact h.above j hj
  isPrivate.unheard := by
    intro j hj
    refine List.eq_nil_iff_forall_not_mem.mpr fun x hx => ?_
    obtain hx | ⟨rfl, -⟩ := mem_listeners_subscribe hx
    · rw [h.unheard j hj] at hx
      cases hx
    · exact Nat.not_lt_of_le hj hi
  isPrivate.known := by
    intro j x hx
    obtain hx | ⟨-, rfl⟩ := mem_listeners_subscribe hx
    · exact h.known j x hx
    · exact hl

/-! ## Notifying -/

/-- What is counted one after the other. -/
theorem counted_foldlM {α : Type} {step : Forest → α → Option Forest} {c : α → List Nat} :
    ∀ {as : List α}, (∀ a ∈ as, ∀ {f g}, f.Private n → step f a = some g →
      Counted n (c a) f g) → ∀ {f g}, f.Private n → as.foldlM step f = some g →
        Counted n (as.flatMap c) f g
  | [], _, f, g, hf, h => by
    cases h
    exact Counted.refl hf
  | a :: as, hstep, f, g, hf, h => by
    rw [List.foldlM_cons] at h
    obtain ⟨g', hfirst, hrest⟩ := Option.bind_eq_some_iff.mp h
    have hcounted := hstep a List.mem_cons_self hf hfirst
    exact hcounted.trans (counted_foldlM (fun b hb => hstep b (List.mem_cons_of_mem a hb))
      hcounted.isPrivate hrest)

theorem counted_call {notify : Nat → Forest → Option Forest} {o : Origin} {l : Listener}
    (hnotify : ∀ {i f g}, f.Private n → notify i f = some g → Counted n (f.chain i) f g)
    (hl : ∀ j ∈ l.known, j < n) (hf : f.Private n) (h : call notify o f l = some g) :
    Counted n [] f g := by
  have hwrite := counted_write hf l.tag o
  cases l with
  | plain tag =>
    cases h
    exact hwrite
  | subscriber tag inner =>
    cases h
    exact hwrite.trans (counted_subscribe hwrite.isPrivate (hl inner List.mem_cons_self) nofun)
  | relay tag target =>
    have htarget : target < n := hl target List.mem_cons_self
    exact hwrite.trans ((hnotify hwrite.isPrivate h).elsewhere
      (hwrite.isPrivate.above target htarget))

theorem counted_deliver {notify : Nat → Forest → Option Forest} {o : Origin} {i : Nat}
    (hnotify : ∀ {i f g}, f.Private n → notify i f = some g → Counted n (f.chain i) f g)
    (hf : f.Private n) (h : deliver notify o f i = some g) : Counted n [i] f g := by
  have hcount := counted_count hf i
  have hcalls := counted_foldlM (c := fun _ => [])
    (fun l hl {_ _} => counted_call hnotify (hf.known i l hl)) hcount.isPrivate h
  have hnone : ((f.listeners i).flatMap fun _ => ([] : List Nat)) = [] := by simp
  rw [hnone] at hcalls
  exact hcount.trans hcalls

theorem counted_notifyWithin (o : Origin) (depth : Nat) : ∀ {i : Nat} {f g : Forest},
    f.Private n → notifyWithin o depth i f = some g → Counted n (f.chain i) f g := by
  induction depth with
  | zero =>
    intro i f g _ h
    cases h
  | succ depth ih =>
    intro i f g hf h
    have hchain := counted_foldlM (c := fun j => [j])
      (fun j _ {_ _} => counted_deliver ih) hf h
    rwa [List.flatMap_singleton'] at hchain

/-- A notification that returns counts one change at each signal on its way up. -/
theorem counted_notify {o : Origin} {i : Nat} (hf : f.Private n) (h : f.notify i o = some g) :
    Counted n (f.chain i) f g := counted_notifyWithin o _ hf h

end Forest

end SceneScript
