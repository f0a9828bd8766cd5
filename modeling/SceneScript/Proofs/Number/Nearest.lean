import Mathlib.Algebra.Group.Nat.Defs
import SceneScript.Number.Binary64

/-! Rounding to the nearest value. The ranks that share a power of two are equally far apart, so
what is not halfway to a neighbour yet is rounded back to its rank, and what is exactly halfway if
the rank is even. Below the first rank of a power of two the neighbour is half as far. -/

namespace SceneScript.Binary64

theorem binade_pos : 0 < binade := by decide

theorem binade_even : binade % 2 = 0 := by decide

/-! ## Ranks by power of two -/

/-- The ranks `s * binade + r` with the significand `r`, of which only those of the least power of
two may be short. -/
structure IsScaled (s r : Nat) : Prop where
  full : s = 0 ∨ binade ≤ r
  short : r < 2 * binade

/-- Every rank has a power of two and a significand. -/
theorem exists_isScaled (m : Nat) : ∃ s r, IsScaled s r ∧ m = s * binade + r := by
  have hmod := Nat.mod_lt m binade_pos
  have hdiv := Nat.div_add_mod m binade
  cases hs : m / binade with
  | zero =>
    rw [hs] at hdiv
    exact ⟨0, m, ⟨.inl rfl, by omega⟩, by omega⟩
  | succ s =>
    rw [hs, Nat.mul_comm, Nat.succ_mul] at hdiv
    exact ⟨s, binade + m % binade, ⟨.inr (by omega), by omega⟩, by omega⟩

theorem units_short {m : Nat} (h : m < binade) : units m = m := if_pos h

theorem units_full (s : Nat) {f : Nat} (h : f < binade) :
    units ((s + 1) * binade + f) = (binade + f) * 2 ^ s := by
  have hnot : ¬(s + 1) * binade + f < binade := by
    rw [Nat.succ_mul]
    omega
  have hdiv : ((s + 1) * binade + f) / binade = s + 1 := by
    rw [Nat.add_comm, Nat.add_mul_div_right _ _ binade_pos, Nat.div_eq_of_lt h, Nat.zero_add]
  have hmod : ((s + 1) * binade + f) % binade = f := by
    rw [Nat.add_comm, Nat.add_mul_mod_self_right, Nat.mod_eq_of_lt h]
  rw [units, if_neg hnot, hdiv, hmod]
  rfl

theorem IsScaled.units {s r : Nat} (h : IsScaled s r) : units (s * binade + r) = r * 2 ^ s := by
  obtain ⟨hfull, hshort⟩ := h
  by_cases hr : r < binade
  · cases hfull with
    | inl hs =>
      rw [hs, Nat.zero_mul, Nat.zero_add, units_short hr]
      omega
    | inr hr' => omega
  · have hrank : s * binade + r = (s + 1) * binade + (r - binade) := by
      rw [Nat.succ_mul]
      omega
    rw [hrank, units_full s (by omega), Nat.add_sub_cancel' (Nat.le_of_not_lt hr)]

/-- Above a rank, the next one is a step of its power of two away. -/
theorem IsScaled.units_succ {s r : Nat} (h : IsScaled s r) :
    Binary64.units (s * binade + r + 1) = (r + 1) * 2 ^ s := by
  by_cases hr : r + 1 < 2 * binade
  · have hnext : IsScaled s (r + 1) := ⟨h.full.imp_right fun h => Nat.le_succ_of_le h, hr⟩
    rw [Nat.add_assoc, hnext.units]
  · have hshort := h.short
    have hlast : r + 1 = 2 * binade := by omega
    have hrank : s * binade + r + 1 = (s + 2) * binade + 0 := by
      rw [Nat.add_mul]
      omega
    rw [hrank, units_full (s + 1) binade_pos, hlast, Nat.pow_succ, Nat.add_zero, Nat.mul_comm 2,
      Nat.mul_assoc, Nat.mul_comm 2]

/-- Below a rank, the next one is a step of its power of two away. -/
theorem IsScaled.units_pred {s r : Nat} (h : IsScaled s r) (hr : 0 < r)
    (hfirst : s = 0 ∨ binade < r) :
    Binary64.units (s * binade + r - 1) = (r - 1) * 2 ^ s := by
  rw [Nat.add_sub_assoc hr]
  exact IsScaled.units ⟨hfirst.imp_right Nat.le_sub_one_of_lt,
    Nat.lt_of_le_of_lt (Nat.sub_le r 1) h.short⟩

/-- Below the first rank of a power of two, the next one is half a step away. -/
theorem units_pred_first (s : Nat) :
    units ((s + 1) * binade + binade - 1) = (2 * binade - 1) * 2 ^ s := by
  have hbinade := binade_pos
  have hrank : (s + 1) * binade + binade - 1 = s * binade + (2 * binade - 1) := by
    rw [Nat.succ_mul]
    omega
  rw [hrank]
  exact IsScaled.units ⟨.inr (by omega), by omega⟩

theorem units_lt_succ (m : Nat) : units m < units (m + 1) := by
  obtain ⟨s, r, h, rfl⟩ := exists_isScaled m
  rw [h.units, h.units_succ]
  exact Nat.mul_lt_mul_of_pos_right (Nat.lt_succ_self r) (Nat.two_pow_pos s)

theorem units_pos {m : Nat} (h : 0 < m) : 0 < units m := by
  obtain ⟨n, rfl⟩ := Nat.exists_eq_succ_of_ne_zero (Nat.ne_of_gt h)
  exact Nat.lt_of_le_of_lt (Nat.zero_le _) (units_lt_succ n)

theorem units_mono {m n : Nat} (h : m ≤ n) : units m ≤ units n := by
  induction h with
  | refl => exact Nat.le_refl _
  | step _ ih => exact Nat.le_trans ih (Nat.le_of_lt (units_lt_succ _))

/-! ## Rounding quotients -/

/-- A quotient that is no further than a half from `q` is rounded to it, if `q` is even or it is
nearer than that. -/
theorem roundDiv_eq {num den q : Nat} (hl : 2 * q * den ≤ 2 * num + den)
    (hu : 2 * num ≤ (2 * q + 1) * den)
    (htie : 2 * q * den = 2 * num + den ∨ 2 * num = (2 * q + 1) * den → q % 2 = 0)
    (hden : 0 < den) : roundDiv num den = q := by
  have hdiv := Nat.div_add_mod num den
  have hmod := Nat.mod_lt num hden
  unfold roundDiv
  dsimp only
  generalize num / den = k at hdiv ⊢
  generalize num % den = t at hdiv hmod ⊢
  subst hdiv
  have hle : k ≤ q := by
    refine Nat.le_of_not_lt fun hlt => ?_
    have hmul : (q + 1) * den ≤ den * k := by
      rw [Nat.mul_comm den]
      exact Nat.mul_le_mul_right den hlt
    simp only [Nat.add_mul, Nat.one_mul, Nat.mul_assoc] at hmul hu
    omega
  have hge : q ≤ k + 1 := by
    refine Nat.le_of_not_lt fun hlt => ?_
    have hmul : (k + 2) * den ≤ q * den := Nat.mul_le_mul_right den hlt
    rw [Nat.add_mul, Nat.mul_comm k] at hmul
    simp only [Nat.mul_assoc] at hl
    omega
  have hcases : q = k ∨ q = k + 1 := by omega
  rcases hcases with rfl | rfl
  · simp only [Nat.add_mul, Nat.one_mul, Nat.mul_assoc, Nat.mul_comm q] at hl hu htie
    split
    · rfl
    split
    · omega
    · rw [htie (by omega), Nat.add_zero]
  · simp only [Nat.add_mul, Nat.mul_add, Nat.one_mul, Nat.mul_one, Nat.mul_assoc,
      Nat.mul_comm k] at hl hu htie
    split
    · omega
    split
    · rfl
    · have heven := htie (by omega)
      omega

/-! ## Rounding to ranks -/

/-- What lies between one power of two and the next is rounded on the grid of the first. -/
theorem nearest_of_scale {num den s r : Nat} (hden : 0 < den) (hscale : (num / den).log2 - 52 = s)
    (hl : 2 * r * (den * 2 ^ s) ≤ 2 * num + den * 2 ^ s)
    (hu : 2 * num ≤ (2 * r + 1) * (den * 2 ^ s))
    (htie : 2 * r * (den * 2 ^ s) = 2 * num + den * 2 ^ s ∨
      2 * num = (2 * r + 1) * (den * 2 ^ s) → r % 2 = 0) :
    nearest num den = min infinity (s * binade + r) := by
  have hround := roundDiv_eq hl hu htie (Nat.mul_pos hden (Nat.two_pow_pos s))
  unfold nearest
  rw [hscale]
  exact congrArg (fun q => min infinity (s * binade + q)) hround

theorem log2_sub_eq {y s : Nat} (hl : s = 0 ∨ binade * 2 ^ s ≤ y) (hu : y < 2 * binade * 2 ^ s) :
    y.log2 - 52 = s := by
  have hbinade : binade = 2 ^ 52 := rfl
  rw [hbinade, ← Nat.pow_add] at hl
  rw [hbinade, Nat.mul_comm 2, ← Nat.pow_succ, ← Nat.pow_add] at hu
  by_cases hy : y = 0
  · rcases hl with rfl | hl
    · rw [hy]
      rfl
    · have hpos := Nat.two_pow_pos (52 + s)
      omega
  have hlt := (Nat.log2_lt hy).mpr hu
  rcases hl with rfl | hl
  · omega
  · have hge : 52 + s ≤ y.log2 := (Nat.le_log2 hy).mpr hl
    omega

/-- The case of a rank that is a whole step away from both neighbours. -/
theorem nearest_inside {num den s r : Nat} (hden : 0 < den) (h : IsScaled s r) (hr : 0 < r)
    (hfirst : s = 0 ∨ binade < r) (hl : (2 * r - 1) * (den * 2 ^ s) ≤ 2 * num)
    (hu : 2 * num ≤ (2 * r + 1) * (den * 2 ^ s))
    (htie : (2 * r - 1) * (den * 2 ^ s) = 2 * num ∨ 2 * num = (2 * r + 1) * (den * 2 ^ s) →
      r % 2 = 0) :
    nearest num den = min infinity (s * binade + r) := by
  have hlower : 2 * r * (den * 2 ^ s) = (2 * r - 1) * (den * 2 ^ s) + den * 2 ^ s := by
    rw [← Nat.succ_mul]
    exact congrArg (· * (den * 2 ^ s)) (by omega)
  have hstep := Nat.mul_pos hden (Nat.two_pow_pos s)
  have hscale : (num / den).log2 - 52 = s := by
    refine log2_sub_eq (hfirst.imp_right fun hfirst => ?_) ?_
    · rw [Nat.le_div_iff_mul_le hden, Nat.mul_assoc, Nat.mul_comm _ den]
      have hmul : 2 * (binade * (den * 2 ^ s)) ≤ (2 * r - 1) * (den * 2 ^ s) := by
        rw [← Nat.mul_assoc]
        exact Nat.mul_le_mul_right _ (by omega)
      omega
    · rw [Nat.div_lt_iff_lt_mul hden, Nat.mul_assoc, Nat.mul_comm _ den]
      have hshort := h.short
      have hmul : (2 * r + 1) * (den * 2 ^ s) < 2 * (2 * binade * (den * 2 ^ s)) := by
        rw [← Nat.mul_assoc 2 (2 * binade)]
        exact Nat.mul_lt_mul_of_pos_right (by omega) hstep
      omega
  exact nearest_of_scale hden hscale (by omega) hu fun ht => htie (by omega)

/-- The case of the first rank of a power of two. It is even. -/
theorem nearest_first {num den s : Nat} (hden : 0 < den)
    (hl : (4 * binade - 1) * (den * 2 ^ s) ≤ 2 * num)
    (hu : 2 * num ≤ (2 * binade + 1) * (den * 2 ^ (s + 1))) :
    nearest num den = min infinity ((s + 1) * binade + binade) := by
  have hstep := Nat.mul_pos hden (Nat.two_pow_pos s)
  have hbinade := binade_pos
  by_cases habove : binade * 2 ^ (s + 1) ≤ num / den
  · have hscale : (num / den).log2 - 52 = s + 1 := by
      refine log2_sub_eq (.inr habove) ?_
      rw [Nat.div_lt_iff_lt_mul hden, Nat.mul_assoc, Nat.mul_comm _ den]
      have hmul : (2 * binade + 1) * (den * 2 ^ (s + 1)) <
          2 * (2 * binade * (den * 2 ^ (s + 1))) := by
        rw [← Nat.mul_assoc 2 (2 * binade)]
        exact Nat.mul_lt_mul_of_pos_right (by omega) (Nat.mul_pos hden (Nat.two_pow_pos _))
      omega
    rw [Nat.le_div_iff_mul_le hden, Nat.mul_assoc, Nat.mul_comm _ den] at habove
    refine nearest_of_scale hden hscale ?_ hu fun _ => binade_even
    rw [Nat.mul_assoc]
    omega
  · have hrank : (s + 1) * binade + binade = s * binade + 2 * binade := by
      rw [Nat.succ_mul]
      omega
    have hbelow : num < 2 * binade * (den * 2 ^ s) := by
      rw [Nat.not_le, Nat.div_lt_iff_lt_mul hden, Nat.pow_succ] at habove
      refine Nat.lt_of_lt_of_eq habove ?_
      simp only [Nat.mul_assoc, Nat.mul_comm, Nat.mul_left_comm]
    have hscale : (num / den).log2 - 52 = s := by
      refine log2_sub_eq (.inr ?_) ?_
      · rw [Nat.le_div_iff_mul_le hden, Nat.mul_assoc, Nat.mul_comm _ den]
        have hmul : 2 * (binade * (den * 2 ^ s)) ≤ (4 * binade - 1) * (den * 2 ^ s) := by
          rw [← Nat.mul_assoc]
          exact Nat.mul_le_mul_right _ (by omega)
        omega
      · rw [Nat.div_lt_iff_lt_mul hden, Nat.mul_assoc, Nat.mul_comm _ den]
        exact hbelow
    have hlower : 2 * (2 * binade) * (den * 2 ^ s) =
        (4 * binade - 1) * (den * 2 ^ s) + den * 2 ^ s := by
      rw [← Nat.succ_mul]
      exact congrArg (· * (den * 2 ^ s)) (by omega)
    rw [hrank]
    refine nearest_of_scale hden hscale (by omega) ?_ fun _ => Nat.mul_mod_right 2 binade
    rw [Nat.add_mul, Nat.mul_assoc 2]
    omega

/-- A quotient that is closer to a rank than to its neighbours is rounded to it; halfway to a
neighbour, if the rank is even. -/
theorem nearest_eq {num den m : Nat} (hden : 0 < den) (hm : 0 < m) (hrank : m ≤ infinity)
    (hl : (units (m - 1) + units m) * den ≤ 2 * num)
    (hu : 2 * num ≤ (units m + units (m + 1)) * den)
    (htie : (units (m - 1) + units m) * den = 2 * num ∨
      2 * num = (units m + units (m + 1)) * den → m % 2 = 0) :
    nearest num den = m := by
  obtain ⟨s, r, h, rfl⟩ := exists_isScaled m
  have hr : 0 < r := by
    rcases h.full with rfl | hfull
    · omega
    · exact Nat.lt_of_lt_of_le binade_pos hfull
  have heven : (s * binade + r) % 2 = r % 2 := by
    rw [Nat.add_mod, Nat.mul_mod, binade_even]
    simp
  have hgather : ∀ a b k : Nat, (a * 2 ^ k + b * 2 ^ k) * den = (a + b) * (den * 2 ^ k) := by
    intro a b k
    rw [← Nat.add_mul, Nat.mul_assoc, Nat.mul_comm _ den]
  refine Eq.trans ?_ (Nat.min_eq_right hrank)
  have hupper : (r * 2 ^ s + (r + 1) * 2 ^ s) * den = (2 * r + 1) * (den * 2 ^ s) := by
    rw [hgather]
    exact congrArg (· * (den * 2 ^ s)) (by omega)
  rw [h.units, h.units_succ, hupper] at hu
  by_cases hfirst : s = 0 ∨ binade < r
  · have hlower : ((r - 1) * 2 ^ s + r * 2 ^ s) * den = (2 * r - 1) * (den * 2 ^ s) := by
      rw [hgather]
      exact congrArg (· * (den * 2 ^ s)) (by omega)
    rw [h.units_pred hr hfirst, h.units, hlower] at hl
    rw [h.units_pred hr hfirst, h.units, h.units_succ, hlower, hupper, heven] at htie
    exact nearest_inside hden h hr hfirst hl hu htie
  · have hfull := h.full
    obtain ⟨s, rfl⟩ : ∃ k, s = k + 1 := ⟨s - 1, by omega⟩
    obtain rfl : r = binade := by omega
    have hlower : ((2 * binade - 1) * 2 ^ s + binade * 2 ^ (s + 1)) * den =
        (4 * binade - 1) * (den * 2 ^ s) := by
      have hdouble : binade * 2 ^ (s + 1) = 2 * binade * 2 ^ s := by
        rw [Nat.pow_succ, Nat.mul_comm _ 2, ← Nat.mul_assoc, Nat.mul_comm binade]
      rw [hdouble, hgather]
      exact congrArg (· * (den * 2 ^ s)) (by omega)
    rw [units_pred_first, h.units, hlower] at hl
    exact nearest_first hden hl hu

end SceneScript.Binary64
