import SceneScript.Proofs.Editor.Links

/-! Edits of a tree with its notifiers. An edit is made at some place, and the notifier there is
told of it. The parts that stay keep their notifiers and those they report to; the others have new
ones. Read with the counts that the notifiers have afterwards, the tree is the one that the same
edit makes of a tree that counts for itself. -/

namespace SceneScript

open Reports

variable {a b b' c s t : Site} {f g : Forest} {owner : Nat}

/-- The notifiers of a part hang below an owner, one for each part. -/
structure Site.Hangs (f : Forest) (owner : Nat) (s : Site) (p : s.Part) : Prop where
  linked : (s.reports p).Linked f owner
  nodup : (s.reports p).numbers.Nodup

/-- What takes the place of a stretch among different numbers, made of these and of new ones. -/
theorem nodup_replace {before old new after : List Nat} {k : Nat}
    (h : (before ++ (old ++ after)).Nodup) (hlt : ∀ j ∈ before ++ (old ++ after), j < k)
    (hnew : new.Nodup) (hfresh : ∀ j ∈ new, j ∈ old ∨ k ≤ j) :
    (before ++ (new ++ after)).Nodup := by
  obtain ⟨hbefore, hrest, hacross⟩ := List.nodup_append.mp h
  obtain ⟨-, hafter, hinside⟩ := List.nodup_append.mp hrest
  refine List.nodup_append.mpr ⟨hbefore, List.nodup_append.mpr ⟨hnew, hafter, ?_⟩, ?_⟩
  · rintro i hi j hj rfl
    rcases hfresh i hi with hold | hge
    · exact hinside i hold i hj rfl
    · have hsmall := hlt i (by simp [hj])
      omega
  · rintro i hi j hj rfl
    rcases List.mem_append.mp hj with hj | hj
    · rcases hfresh i hj with hold | hge
      · exact hacross i hi i (List.mem_append_left _ hold) rfl
      · have hsmall := hlt i (List.mem_append_left _ hi)
        omega
    · exact hacross i hi i (List.mem_append_right _ hj) rfl

/-! ## Putting a part somewhere -/

theorem Step.emitted_put {step : Step a b} {p : a.Part} {q q' : b.Part}
    (h : step.get? p = some q) (hq : b.emitted q' = b.emitted q) :
    a.emitted (step.put q' p) = a.emitted p := by
  by_cases ha : a = .sequence
  · subst ha
    cases step
    cases h
    exact hq
  · exact step.emitted_put_of_ne ha q' p

theorem Step.Around.apart_put {step : Step a b} {p : a.Part} {before after : List Reports}
    (h : step.Around p before after) (q : b.Part)
    (hp : (a.reports (step.put q p)).numbers.Nodup) : a.emitted p ∉ (b.reports q).numbers := by
  rw [h.reports_put q, numbers, numbersAll_append, numbersAll] at hp
  grind

/-! ## Edits -/

/-- What an edit made at a place inside a part does to its notifiers, and the same edit of a tree
that counts for itself. -/
structure Relinks (f : Forest) (path : Path s t) (n : Nat) (o : Origin) (p : s.Part)
    (e : Edited s.Part) (g : Forest) (p' : s.Part) : Prop where
  own : t ≠ .sequence
  place : ∃ q, path.get? p = some q ∧ t.emitted q = n
  origin : e.origin = some o
  grows : f.Grows n g
  emitted : s.emitted p' = s.emitted p
  hangs : ∀ {owner : Nat}, owner < f.size → s.Hangs f owner p → s.Hangs g owner p'
  numbers : ∀ j ∈ (s.reports p').numbers, j ∈ (s.reports p).numbers ∨ f.size ≤ j
  kept : ∀ {c : Site} {x : Path s c} {r' : c.Part}, x.get? p' = some r' →
    (∃ r, x.get? p = some r ∧ c.emitted r = c.emitted r') ∨ f.size ≤ c.emitted r'
  mirrored : ∀ {owner : Nat}, owner < f.size → s.Hangs f owner p → ∀ G : Nat → Nat,
    (∀ j ∈ (s.reports p').numbers, G j = f.emittedAt j + (n :: path.enclosing p).count j) →
      e = ⟨s.recount G p', some o⟩

namespace Relinks

variable {n : Nat} {o : Origin} {path : Path b t} {step : Step a b} {p : a.Part} {q q' : b.Part}
  {e : Edited b.Part}

theorem hangs_step (h : Relinks f path n o q e g q') (hq : step.get? p = some q)
    (howner : owner < f.size) (hp : a.Hangs f owner p) : a.Hangs g owner (step.put q' p) := by
  by_cases ha : a = .sequence
  · subst ha
    obtain ⟨hreports, -, hput, -⟩ := Step.reports_sequence hq
    obtain ⟨hlinked, hnodup⟩ := hp
    rw [hreports] at hlinked hnodup
    obtain ⟨hlinked', hnodup'⟩ := h.hangs howner ⟨hlinked, hnodup⟩
    exact ⟨hput q' ▸ hlinked', hput q' ▸ hnodup'⟩
  · obtain ⟨before, after, haround⟩ := Step.exists_around hq ha
    obtain ⟨hlinked, hnodup⟩ := hp
    have hsize := hlinked.lt_size
    rw [haround.reports_eq hq] at hlinked hnodup hsize
    cases hlinked with
    | mk hchain hbelow =>
      have hown : a.emitted p < f.size := Forest.lt_size_of_chain hchain
      have hinner : b.Hangs f (a.emitted p) q :=
        ⟨hbelow _ (by simp), Step.nodup_get? hq (haround.reports_eq hq ▸ hnodup)⟩
      have hinner' := h.hangs hown hinner
      refine ⟨?_, ?_⟩
      · rw [haround.reports_put q']
        refine .mk ?_ fun r hr => ?_
        · rw [h.grows.chain_eq hown, h.grows.chain_eq howner, hchain]
        · rcases List.mem_append.mp hr with hr | hr
          · exact (hbelow r (by simp [hr])).mono (fun i hi => h.grows.chain_eq hi) hown
          rcases List.mem_cons.mp hr with rfl | hr
          · exact hinner'.linked
          · exact (hbelow r (by simp [hr])).mono (fun i hi => h.grows.chain_eq hi) hown
      · rw [haround.reports_put q']
        simp only [Reports.numbers, numbersAll_append, numbersAll, ← List.cons_append]
          at hnodup hsize ⊢
        exact nodup_replace hnodup hsize hinner'.nodup h.numbers

theorem numbers_step (h : Relinks f path n o q e g q') (hq : step.get? p = some q) :
    ∀ j ∈ (a.reports (step.put q' p)).numbers, j ∈ (a.reports p).numbers ∨ f.size ≤ j := by
  intro j hj
  by_cases ha : a = .sequence
  · subst ha
    obtain ⟨hreports, -, hput, -⟩ := Step.reports_sequence hq
    rw [hput q'] at hj
    rw [hreports]
    exact h.numbers j hj
  · obtain ⟨before, after, haround⟩ := Step.exists_around hq ha
    have hfresh := h.numbers
    rw [haround.reports_put q'] at hj
    rw [haround.reports_eq hq]
    simp only [Reports.numbers, numbersAll_append, numbersAll] at hj ⊢
    grind

theorem kept_step (h : Relinks f path n o q e g q') (hq : step.get? p = some q)
    {x : Path a c} {r' : c.Part} (hr : x.get? (step.put q' p) = some r') :
    (∃ r, x.get? p = some r ∧ c.emitted r = c.emitted r') ∨ f.size ≤ c.emitted r' := by
  cases x with
  | here =>
    obtain rfl := Option.some.inj hr
    exact .inl ⟨p, rfl, (Step.emitted_put hq h.emitted).symm⟩
  | @step _ b' _ other rest =>
    by_cases hsame : (⟨b', other⟩ : Σ b, Step a b) = ⟨b, step⟩
    · cases hsame
      simp only [Path.get?, Step.get?_put hq, Option.bind_some] at hr
      obtain ⟨r, hrest, hemitted⟩ | hfresh := h.kept hr
      · exact .inl ⟨r, (congrArg (·.bind rest.get?) hq).trans hrest, hemitted⟩
      · exact .inr hfresh
    · rw [Path.get?, Step.get?_put_ne hsame] at hr
      exact .inl ⟨r', hr, rfl⟩

/-- The numbers on the way up to a part are inside it. -/
theorem told_mem (h : Relinks f path n o q e g q') :
    ∀ j ∈ n :: path.enclosing q, j ∈ (b.reports q).numbers := by
  obtain ⟨part, hpart, rfl⟩ := h.place
  exact Path.enclosing_subset hpart

theorem mirrored_step (h : Relinks f path n o q e g q') (hq : step.get? p = some q)
    (howner : owner < f.size) (hp : a.Hangs f owner p) {G : Nat → Nat}
    (hG : ∀ j ∈ (a.reports (step.put q' p)).numbers,
      G j = f.emittedAt j + (n :: (path.enclosing q ++ a.own p)).count j) :
    a.announce (some o) (step.put e.part (a.recount f.emittedAt p)) =
      a.recount G (step.put q' p) := by
  by_cases ha : a = .sequence
  · subst ha
    obtain ⟨hreports, -, hput, -⟩ := Step.reports_sequence hq
    obtain ⟨hlinked, hnodup⟩ := hp
    rw [hreports] at hlinked hnodup
    rw [hput q'] at hG
    have he := h.mirrored howner ⟨hlinked, hnodup⟩ G fun j hj => by
      simpa only [Site.own, List.append_nil] using hG j hj
    rw [step.recount_put, he]
    cases step
    rfl
  · obtain ⟨before, after, haround⟩ := Step.exists_around hq ha
    obtain ⟨hinside, hown, hownAround, hacross⟩ := haround.apart hq hp.nodup
    have hown' := haround.apart_put q' (h.hangs_step hq howner hp).nodup
    obtain ⟨inner, hlinked, hchain⟩ := Step.linked_get? hq hp.linked
    have hcount : ∀ j, (n :: (path.enclosing q ++ a.own p)).count j =
        (n :: path.enclosing q).count j + [a.emitted p].count j := fun j => by
      rw [Site.own_of_ne ha, ← List.cons_append, List.count_append]
    have hself : ∀ j, j ≠ a.emitted p → [a.emitted p].count j = 0 := fun j hj =>
      List.count_eq_zero.mpr fun hmem => hj (List.mem_singleton.mp hmem)
    have houter : ∀ j, j ∉ (b.reports q).numbers → (n :: path.enclosing q).count j = 0 :=
      fun j hj => List.count_eq_zero.mpr fun hmem => hj (h.told_mem j hmem)
    rw [Site.own_of_ne ha] at hchain
    rw [haround.reports_put q', Reports.numbers, numbersAll_append, numbersAll] at hG
    simp only [List.mem_cons, List.mem_append] at hG
    have he := h.mirrored (Forest.lt_size_of_chain hchain) ⟨hlinked, hinside⟩ G fun j hj => by
      have hne : j ≠ a.emitted p := fun heq => hown' (heq ▸ hj)
      rw [hG j (.inr (.inr (.inl hj))), hcount, hself j hne, Nat.add_zero]
    have hcounted : G (a.emitted p) = f.emittedAt (a.emitted p) + 1 := by
      rw [hG _ (.inl rfl), hcount, houter _ hown, List.count_singleton_self, Nat.zero_add]
    have hrest : AgreeOn f.emittedAt G (before ++ after) := by
      intro j hj
      have hne : j ≠ a.emitted p := fun heq => hownAround (heq ▸ hj)
      have hout : j ∉ (b.reports q).numbers := fun hmem => hacross j hmem hj
      rw [numbersAll_append, List.mem_append] at hj
      rw [hG j (.inr (hj.imp_right .inr)), hcount, hself j hne, houter j hout,
        Nat.add_zero]
    rw [step.recount_put, ← haround.announced hcounted hrest e.part o, he]

theorem inside (h : Relinks f path n o q e g q') (hq : step.get? p = some q) :
    Relinks f (.step step path) n o p
      ⟨a.announce (some o) (step.put e.part (a.recount f.emittedAt p)), some o⟩ g
      (step.put q' p) where
  own := h.own
  place := by
    obtain ⟨part, hpart, hn⟩ := h.place
    exact ⟨part, (congrArg (·.bind path.get?) hq).trans hpart, hn⟩
  origin := rfl
  grows := h.grows
  emitted := Step.emitted_put hq h.emitted
  hangs := fun howner hp => h.hangs_step hq howner hp
  numbers := h.numbers_step hq
  kept := fun hr => h.kept_step hq hr
  mirrored := by
    intro owner howner hp G hG
    simp only [Path.enclosing, hq, Option.map_some, Option.getD_some] at hG
    rw [h.mirrored_step hq howner hp hG]

/-- What is edited along a path is edited at the end of it. -/
theorem along {q q' : b.Part} {e : Edited b.Part} {path : Path b t} {way : Path a b} {p : a.Part}
    (h : Relinks f path n o q e g q') (hq : way.get? p = some q) :
    Relinks f (way.append path) n o p ⟨way.put e (a.recount f.emittedAt p), some o⟩ g
      (way.put ⟨q', none⟩ p) := by
  induction way with
  | here =>
    obtain rfl := Option.some.inj hq
    have he : e = ⟨e.part, some o⟩ := congrArg (Edited.mk e.part) h.origin
    rw [he] at h
    exact h
  | step step rest ih =>
    obtain ⟨inner, hinner, hrest⟩ := Option.bind_eq_some_iff.mp hq
    simp only [Path.put, step.get?_recount, hinner, Option.map_some, Site.announce_none, h.origin]
    exact (ih h hrest).inside hinner

end Relinks

/-! ## Edits of a part itself -/

theorem numbersAll_sublist {rs ts : List Reports} (h : rs.Sublist ts) :
    (numbersAll rs).Sublist (numbersAll ts) := by
  induction h with
  | slnil => exact .slnil
  | cons r _ ih => exact ih.trans (List.sublist_append_right ..)
  | cons_cons r _ ih => exact ih.append_left r.numbers

theorem Forest.Wired.fresh {rs : List Reports} (h : f.Wired owner rs g) :
    ∀ j ∈ numbersAll rs, f.size ≤ j := by
  intro j hj
  rw [h.numbers, List.mem_range'_1] at hj
  exact hj.1

section Here

variable {p p' : s.Part} {old stay new : List Reports} (hs : s ≠ .sequence)
  (hp : s.reports p = .mk (s.emitted p) old)
  (hp' : s.reports p' = .mk (s.emitted p) (stay ++ new)) (hstay : stay.Sublist old)
  (hnew : f.Wired (s.emitted p) new g)

include hp hp' hstay hnew

theorem hangs_here (howner : owner < f.size) (h : s.Hangs f owner p) : s.Hangs g owner p' := by
  obtain ⟨hlinked, hnodup⟩ := h
  have hsize := hlinked.lt_size
  rw [hp] at hlinked hnodup hsize
  obtain ⟨hown, hold⟩ := List.nodup_cons.mp hnodup
  have hsub := numbersAll_sublist hstay
  cases hlinked with
  | mk hchain hbelow =>
    have hn : s.emitted p < f.size := Forest.lt_size_of_chain hchain
    refine ⟨?_, ?_⟩
    · rw [hp']
      refine .mk ?_ fun r hr => ?_
      · rw [hnew.grows.chain_eq hn, hnew.grows.chain_eq howner, hchain]
      · rcases List.mem_append.mp hr with hr | hr
        · exact (hbelow r (hstay.subset hr)).mono (fun i hi => hnew.grows.chain_eq hi) hn
        · exact hnew.linked r hr
    · have hnewest : (numbersAll new).Nodup := hnew.numbers ▸ List.nodup_range'
      have hstill : ∀ j ∈ numbersAll stay, j ∈ numbersAll old := fun j hj => hsub.subset hj
      have hfresh := hnew.fresh
      rw [hp', numbers, numbersAll_append, List.nodup_cons, List.nodup_append]
      refine ⟨fun hmem => ?_, hold.sublist hsub, hnewest, ?_⟩
      · rcases List.mem_append.mp hmem with hmem | hmem
        · exact hown (hstill _ hmem)
        · exact Nat.not_lt_of_le (hfresh _ hmem) hn
      · rintro i hi j hj rfl
        exact Nat.not_lt_of_le (hfresh i hj) (hsize i (List.mem_cons_of_mem _ (hstill i hi)))

theorem numbers_here : ∀ j ∈ (s.reports p').numbers, j ∈ (s.reports p).numbers ∨ f.size ≤ j := by
  intro j hj
  rw [hp', numbers, numbersAll_append] at hj
  rw [hp, numbers]
  rcases List.mem_cons.mp hj with rfl | hj
  · exact .inl List.mem_cons_self
  rcases List.mem_append.mp hj with hj | hj
  · exact .inl (List.mem_cons_of_mem _ ((numbersAll_sublist hstay).subset hj))
  · exact .inr (hnew.fresh j hj)

include hs

/-- The parts inside another that stay are some of those that were there; what is new was made below
its notifier. -/
theorem relinks_here (hemitted : s.emitted p' = s.emitted p)
    (hinside : ∀ {b : Site} {step : Step s b} {q : b.Part}, step.get? p' = some q →
      step.get? p = some q ∨ ∀ j ∈ (b.reports q).numbers, f.size ≤ j)
    {o : Origin} : Relinks f .here (s.emitted p) o p
      ⟨s.announce (some o) (s.recount f.emittedAt p'), some o⟩ g p' where
  own := hs
  place := ⟨p, rfl, rfl⟩
  origin := rfl
  grows := hnew.grows
  emitted := hemitted
  hangs := fun howner h => hangs_here hp hp' hstay hnew howner h
  numbers := numbers_here hp hp' hstay hnew
  kept := by
    intro c x r' hr
    cases x with
    | here =>
      obtain rfl := Option.some.inj hr
      exact .inl ⟨p, rfl, hemitted.symm⟩
    | step step rest =>
      obtain ⟨q, hq, hrest⟩ := Option.bind_eq_some_iff.mp hr
      rcases hinside hq with hold | hfresh
      · exact .inl ⟨r', (congrArg (·.bind rest.get?) hold).trans hrest, rfl⟩
      · exact .inr (hfresh _ (Path.emitted_mem hrest))
  mirrored := by
    intro owner howner h G hG
    have hnodup := (hangs_here hp hp' hstay hnew howner h).nodup
    rw [hp'] at hG hnodup
    obtain ⟨hown, -⟩ := List.nodup_cons.mp hnodup
    have hcounted : G (s.emitted p) = f.emittedAt (s.emitted p) + 1 := by
      rw [hG _ List.mem_cons_self]
      simp [Path.enclosing]
    have hrest : AgreeOn f.emittedAt G (stay ++ new) := by
      intro j hj
      have hne : j ∉ [s.emitted p] := fun hmem => hown (List.mem_singleton.mp hmem ▸ hj)
      rw [hG j (List.mem_cons_of_mem _ hj), Path.enclosing, List.count_eq_zero.mpr hne,
        Nat.add_zero]
    rw [← hemitted] at hp' hcounted
    rw [Site.announced hs hp' hcounted hrest o]

end Here

end SceneScript
