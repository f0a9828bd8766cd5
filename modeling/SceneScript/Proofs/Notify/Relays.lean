import SceneScript.Proofs.Notify.Counting

/-! Changes that are passed on. A listener that is called subscribes no relay and moves no signal,
so where a change goes from a signal is the same throughout a notification, and how deep the
notification gets is settled before it starts. The signals along its deepest way settle at different
depths, and all of them but the first are targets of relays. So a notification that returns is no
deeper than the relays are many, and none that would return is cut off. -/

namespace SceneScript

/-- Where a listener passes a change on. -/
def Listener.target? : Listener → Option Nat
  | relay _ target => some target
  | _ => none

theorem Listener.isSome_target? (l : Listener) : l.target?.isSome = l.isRelay := by
  cases l <;> rfl

namespace Forest

variable {f g : Forest}

/-- Where the listeners of a signal pass a change on. -/
def passes (f : Forest) (i : Nat) : List Nat := (f.listeners i).filterMap Listener.target?

/-! ## What calls leave as it is -/

/-- The ways up, and where changes are passed on, are the same. -/
structure SameRoutes (f g : Forest) : Prop where
  chain : ∀ i, g.chain i = f.chain i
  passes : ∀ i, g.passes i = f.passes i

namespace SameRoutes

theorem refl (f : Forest) : f.SameRoutes f := ⟨fun _ => rfl, fun _ => rfl⟩

theorem write (h : f.SameRoutes g) (tag : String) (o : Origin) : f.SameRoutes (g.write tag o) :=
  ⟨h.chain, h.passes⟩

theorem count (h : f.SameRoutes g) (i : Nat) : f.SameRoutes (g.count i) where
  chain j := (g.chain_count i j).trans (h.chain j)
  passes j := by
    rw [Forest.passes, listeners_count]
    exact h.passes j

theorem subscribe (h : f.SameRoutes g) (i : Nat) (tag : String) :
    f.SameRoutes (g.subscribe i (.plain tag)) where
  chain j := (g.chain_subscribe i j _).trans (h.chain j)
  passes j := by
    rw [← h.passes]
    unfold Forest.passes listeners
    rw [signals_subscribe]
    cases g.signals[j]? with
    | none => rfl
    | some s => by_cases hij : i = j <;> simp [hij, Listener.target?]

end SameRoutes

/-! ## How deep a notification gets -/

/-- A notification of a signal passes changes on less than so many levels deep. -/
def SettlesWithin (f : Forest) : Nat → Nat → Prop
  | 0, _ => False
  | depth + 1, i => ∀ j ∈ f.chain i, ∀ k ∈ f.passes j, f.SettlesWithin depth k

theorem SettlesWithin.mono : ∀ {depth depth' i : Nat}, f.SettlesWithin depth i →
    depth ≤ depth' → f.SettlesWithin depth' i
  | _ + 1, _ + 1, _, h, hle =>
    fun j hj k hk => (h j hj k hk).mono (Nat.le_of_succ_le_succ hle)

/-- It returns exactly under this condition, and changes no route. -/
structure Ends (f : Forest) (p : Prop) (x : Option Forest) : Prop where
  returns : x.isSome ↔ p
  routes : ∀ g, x = some g → f.SameRoutes g

theorem SameRoutes.ends (h : f.SameRoutes g) {p : Prop} (hp : p) : f.Ends p (some g) where
  returns := iff_of_true rfl hp
  routes := by
    rintro _ ⟨⟩
    exact h

theorem ends_foldlM {α : Type} {step : Forest → α → Option Forest} {p : α → Prop} :
    ∀ {as : List α}, (∀ a ∈ as, ∀ g, f.SameRoutes g → f.Ends (p a) (step g a)) →
      ∀ g, f.SameRoutes g → f.Ends (∀ a ∈ as, p a) (as.foldlM step g)
  | [], _, _, hg => hg.ends (List.forall_mem_nil p)
  | a :: as, hstep, g, hg => by
    have hfirst := hstep a List.mem_cons_self g hg
    rw [List.foldlM_cons, List.forall_mem_cons]
    cases h : step g a with
    | none =>
      rw [h] at hfirst
      exact ⟨iff_of_false Bool.false_ne_true fun hp => Bool.false_ne_true (hfirst.returns.mpr hp.1),
        nofun⟩
    | some g' =>
      have hp : p a := hfirst.returns.mp (by rw [h]; rfl)
      have hrest := ends_foldlM (fun b hb => hstep b (List.mem_cons_of_mem a hb)) g'
        (hfirst.routes g' h)
      exact ⟨hrest.returns.trans (and_iff_right hp).symm, hrest.routes⟩

section

variable {notify : Nat → Forest → Option Forest} {o : Origin} {p : Nat → Prop}

theorem ends_call (hnotify : ∀ i g, f.SameRoutes g → f.Ends (p i) (notify i g)) (l : Listener)
    (hg : f.SameRoutes g) : f.Ends (∀ k ∈ l.target?, p k) (call notify o g l) := by
  have hwrite := hg.write l.tag o
  cases l with
  | plain tag => exact hwrite.ends (by simp [Listener.target?])
  | subscriber tag inner =>
    exact (hwrite.subscribe inner (innerTag tag)).ends (by simp [Listener.target?])
  | relay tag target =>
    have htarget : (∀ k ∈ (Listener.relay tag target).target?, p k) ↔ p target := by
      simp [Listener.target?]
    rw [htarget]
    exact hnotify target _ hwrite

theorem ends_deliver (hnotify : ∀ i g, f.SameRoutes g → f.Ends (p i) (notify i g)) (i : Nat)
    (hg : f.SameRoutes g) : f.Ends (∀ k ∈ f.passes i, p k) (deliver notify o g i) := by
  have hcalls : f.Ends (∀ l ∈ g.listeners i, ∀ k ∈ l.target?, p k) (deliver notify o g i) :=
    ends_foldlM (fun l _ _ hg => ends_call hnotify l hg) (g.count i) (hg.count i)
  have hpasses : (∀ l ∈ g.listeners i, ∀ k ∈ l.target?, p k) ↔ ∀ k ∈ f.passes i, p k := by
    rw [← hg.passes]
    simp only [passes, List.mem_filterMap, Option.mem_def]
    exact ⟨fun h k ⟨l, hl, hk⟩ => h l hl k hk, fun h l hl k hk => h k ⟨l, hl, hk⟩⟩
  rwa [hpasses] at hcalls

end

/-- A notification that may go so deep returns exactly if it settles before. -/
theorem ends_notifyWithin (f : Forest) (o : Origin) : ∀ (depth i : Nat) (g : Forest),
    f.SameRoutes g → f.Ends (f.SettlesWithin depth i) (notifyWithin o depth i g)
  | 0, _, _, _ => ⟨iff_of_false Bool.false_ne_true id, nofun⟩
  | depth + 1, i, g, hg => by
    have hclimb : f.Ends (∀ j ∈ g.chain i, ∀ k ∈ f.passes j, f.SettlesWithin depth k)
        (notifyWithin o (depth + 1) i g) :=
      ends_foldlM (fun j _ _ hg => ends_deliver (ends_notifyWithin f o depth) j hg) g hg
    rwa [hg.chain] at hclimb

/-! ## How many relays that takes -/

/-- Where any listener passes a change on. -/
def targets (f : Forest) : List Nat :=
  (f.signals.flatMap (·.listeners)).filterMap Listener.target?

theorem length_targets (f : Forest) : f.targets.length = f.relays := by
  simp only [targets, relays, List.length_filterMap_eq_countP, Listener.isSome_target?]

theorem mem_targets {i j : Nat} (h : j ∈ f.passes i) : j ∈ f.targets := by
  obtain ⟨l, hl, hj⟩ := List.mem_filterMap.mp h
  obtain ⟨s, hs, hl⟩ := exists_of_mem_listeners hl
  exact List.mem_filterMap.mpr ⟨l, List.mem_flatMap.mpr ⟨s, hs, hl⟩, hj⟩

/-- The changes of a signal are passed on so many levels deep, and no deeper. -/
def Settles (f : Forest) (depth i : Nat) : Prop :=
  f.SettlesWithin (depth + 1) i ∧ ¬f.SettlesWithin depth i

theorem Settles.unique {depth depth' i : Nat} (h : f.Settles depth i) (h' : f.Settles depth' i) :
    depth = depth' := by
  rcases Nat.lt_trichotomy depth depth' with hlt | heq | hlt
  · exact absurd (h.1.mono hlt) h'.2
  · exact heq
  · exact absurd (h'.1.mono hlt) h.2

theorem SettlesWithin.exists_settles : ∀ {depth i : Nat}, f.SettlesWithin depth i →
    ∃ d, f.Settles d i
  | depth + 1, i, h => by
    by_cases hless : f.SettlesWithin depth i
    · exact hless.exists_settles
    · exact ⟨depth, h, hless⟩

/-- Some change is passed on to a signal that settles one level earlier, and so on. -/
theorem Settles.exists_target : ∀ {depth i : Nat}, f.Settles depth i →
    ∀ d < depth, ∃ k ∈ f.targets, f.Settles d k
  | depth + 1, i, ⟨h, hnot⟩, d, hd => by
    have hdeepest : ∃ j ∈ f.chain i, ∃ k ∈ f.passes j, ¬f.SettlesWithin depth k := by
      simpa only [SettlesWithin, not_forall, exists_prop] using hnot
    obtain ⟨j, hj, k, hk, hdeep⟩ := hdeepest
    have hsettles : f.Settles depth k := ⟨h j hj k hk, hdeep⟩
    rcases Nat.lt_succ_iff_lt_or_eq.mp hd with hlt | rfl
    · exact hsettles.exists_target d hlt
    · exact ⟨k, mem_targets hk, hsettles⟩

/-- By induction on the depth: signals that settle at different depths are different. -/
theorem le_length_of_settles {depth : Nat} {ks : List Nat}
    (h : ∀ d < depth, ∃ k ∈ ks, f.Settles d k) : depth ≤ ks.length := by
  induction depth generalizing ks with
  | zero => exact Nat.zero_le _
  | succ depth ih =>
    obtain ⟨k, hk, hsettles⟩ := h depth (Nat.lt_succ_self depth)
    have hothers : ∀ d < depth, ∃ k' ∈ ks.erase k, f.Settles d k' := by
      intro d hd
      obtain ⟨k', hk', hsettles'⟩ := h d (Nat.lt_succ_of_lt hd)
      have hne : k' ≠ k := by
        rintro rfl
        exact Nat.ne_of_lt hd (hsettles'.unique hsettles)
      exact ⟨k', (List.mem_erase_of_ne hne).mpr hk', hsettles'⟩
    have hlength := ih hothers
    have hpos := List.length_pos_of_mem hk
    rw [List.length_erase_of_mem hk] at hlength
    omega

/-- What settles at all settles at a depth no greater than the number of relays. -/
theorem SettlesWithin.within_relays {depth i : Nat} (h : f.SettlesWithin depth i) :
    f.SettlesWithin (f.relays + 1) i := by
  obtain ⟨d, hd⟩ := h.exists_settles
  have hle : d ≤ f.relays := f.length_targets ▸ le_length_of_settles hd.exists_target
  exact hd.1.mono (Nat.succ_le_succ hle)

/-! ## Nothing is cut off -/

theorem foldlM_extend {α : Type} {step step' : Forest → α → Option Forest}
    (h : ∀ {f a g}, step f a = some g → step' f a = some g) : ∀ {as : List α} {f g : Forest},
      as.foldlM step f = some g → as.foldlM step' f = some g
  | [], _, _, hfold => hfold
  | a :: as, f, g, hfold => by
    rw [List.foldlM_cons] at hfold ⊢
    obtain ⟨g', hfirst, hrest⟩ := Option.bind_eq_some_iff.mp hfold
    rw [h hfirst]
    exact foldlM_extend h hrest

/-- What returns does the same if it may go deeper. -/
theorem notifyWithin_mono {o : Origin} : ∀ {depth depth' i : Nat} {f g : Forest},
    notifyWithin o depth i f = some g → depth ≤ depth' → notifyWithin o depth' i f = some g
  | depth + 1, depth' + 1, i, f, g, h, hle => by
    refine foldlM_extend (fun hdeliver => foldlM_extend (fun {_ l _} hcall => ?_) hdeliver) h
    cases l with
    | plain tag => exact hcall
    | subscriber tag inner => exact hcall
    | relay tag target => exact notifyWithin_mono hcall (Nat.le_of_succ_le_succ hle)

/-- A notification returns exactly if it settles. -/
theorem exists_notify_iff {i : Nat} {o : Origin} :
    (∃ g, f.notify i o = some g) ↔ ∃ depth, f.SettlesWithin depth i := by
  have hreturns := (f.ends_notifyWithin o (f.relays + 1) i f (.refl f)).returns
  rw [Option.isSome_iff_exists] at hreturns
  exact hreturns.trans ⟨fun h => ⟨_, h⟩, fun ⟨_, h⟩ => h.within_relays⟩

/-- A notification that returns if it may go as deep as it wants is not cut off. -/
theorem notify_eq_some_iff {i : Nat} {o : Origin} :
    f.notify i o = some g ↔ ∃ depth, notifyWithin o depth i f = some g := by
  refine ⟨fun h => ⟨_, h⟩, fun ⟨depth, h⟩ => ?_⟩
  have hsettles : f.SettlesWithin depth i :=
    (f.ends_notifyWithin o depth i f (.refl f)).returns.mp (by rw [h]; rfl)
  obtain ⟨g', hnotify⟩ := exists_notify_iff.mpr ⟨depth, hsettles⟩
  -- the two depths can be either way round, and at the greater one both come to the same
  rw [hnotify, ← notifyWithin_mono h (Nat.le_max_left depth (f.relays + 1)),
    ← notifyWithin_mono hnotify (Nat.le_max_right depth (f.relays + 1))]

/-! ## Forests without relays -/

/-- No listener passes a change on. -/
def Quiet (f : Forest) : Prop := ∀ i, ∀ l ∈ f.listeners i, l.isRelay = false

theorem quiet_iff : f.Quiet ↔ ∀ i, f.passes i = [] := by
  have hnone (l : Listener) : l.isRelay = false ↔ l.target? = none := by
    rw [← l.isSome_target?, Option.isSome_eq_false_iff, Option.isNone_iff_eq_none]
  simp only [Quiet, passes, List.filterMap_eq_nil_iff, hnone]

theorem quiet_of_relays (h : f.relays = 0) : f.Quiet := by
  rw [← length_targets, List.length_eq_zero_iff] at h
  refine quiet_iff.mpr fun i => List.eq_nil_iff_forall_not_mem.mpr fun j hj => ?_
  have hmem := mem_targets hj
  rw [h] at hmem
  cases hmem

theorem SameRoutes.quiet (h : f.SameRoutes g) (hf : f.Quiet) : g.Quiet :=
  quiet_iff.mpr fun i => (h.passes i).trans (quiet_iff.mp hf i)

/-- Where no listener passes a change on, every notification returns. -/
theorem exists_notify (hf : f.Quiet) (i : Nat) (o : Origin) :
    ∃ g, f.notify i o = some g ∧ g.Quiet := by
  have hsettles : f.SettlesWithin 1 i := by
    intro j _ k hk
    rw [quiet_iff.mp hf j] at hk
    cases hk
  obtain ⟨g, hg⟩ := exists_notify_iff.mpr ⟨1, hsettles⟩
  exact ⟨g, hg, ((f.ends_notifyWithin o _ i f (.refl f)).routes g hg).quiet hf⟩

end Forest

end SceneScript
