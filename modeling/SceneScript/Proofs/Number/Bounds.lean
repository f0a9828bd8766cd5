import SceneScript.Json.Scaled
import SceneScript.Proofs.Outcome
import SceneScript.Proofs.Number.Nearest

/-! Where rounding may leave the finite values. Rounding respects the order: what does not exceed
the exact value of a rank is not rounded past it. So a quotient by at least one stays as small as
its dividend, and the one way to a number that is not finite is a product, which the reader of
numbers tests. -/

namespace SceneScript

namespace Binary64

/-! ## Rounding respects the order -/

theorem le_roundDiv {num den q : Nat} (h : q * den ≤ num) (hden : 0 < den) :
    q ≤ roundDiv num den := by
  have hquot : q ≤ num / den := (Nat.le_div_iff_mul_le hden).mpr h
  unfold roundDiv
  dsimp only
  split
  · exact hquot
  split <;> omega

theorem roundDiv_le {num den q : Nat} (h : num ≤ q * den) (hden : 0 < den) :
    roundDiv num den ≤ q := by
  have hdiv := Nat.div_add_mod num den
  unfold roundDiv
  dsimp only
  rcases Nat.eq_or_lt_of_le h with rfl | hlt
  · refine Nat.le_of_eq ?_
    rw [Nat.mul_mod_left, Nat.mul_div_cancel q hden, if_pos (by omega)]
  · have hquot : num / den < q := Nat.div_lt_of_lt_mul (Nat.mul_comm q den ▸ hlt)
    split
    · omega
    split <;> omega

theorem roundDiv_mono {num num' den : Nat} (h : num ≤ num') (hden : 0 < den) :
    roundDiv num den ≤ roundDiv num' den := by
  have hdiv := Nat.div_add_mod num den
  have hdiv' := Nat.div_add_mod num' den
  rcases Nat.lt_or_eq_of_le (Nat.div_le_div_right (c := den) h) with hlt | heq
  · have hupper : roundDiv num den ≤ num / den + 1 := by
      refine roundDiv_le ?_ hden
      rw [Nat.add_mul, Nat.mul_comm _ den]
      have hmod := Nat.mod_lt num hden
      omega
    exact Nat.le_trans hupper (le_roundDiv ((Nat.le_div_iff_mul_le hden).mp hlt) hden)
  · unfold roundDiv
    dsimp only
    rw [heq] at hdiv ⊢
    split
    · split
      · exact Nat.le_refl _
      split <;> omega
    split
    · refine Nat.le_of_eq ?_
      rw [if_neg (by omega), if_pos (by omega)]
    · rw [if_neg (by omega)]
      split <;> omega

/-- The power of two on whose grid a quotient is rounded. -/
theorem scale_bounds (y : Nat) :
    (y.log2 - 52 = 0 ∨ binade * 2 ^ (y.log2 - 52) ≤ y) ∧
      y < 2 * binade * 2 ^ (y.log2 - 52) := by
  have hbinade : binade = 2 ^ 52 := rfl
  rw [hbinade, ← Nat.pow_succ', ← Nat.pow_add, ← Nat.pow_add]
  refine ⟨?_, Nat.lt_of_lt_of_le Nat.lt_log2_self (Nat.pow_le_pow_right (by omega) (by omega))⟩
  by_cases hshort : y.log2 ≤ 52
  · exact .inl (Nat.sub_eq_zero_of_le hshort)
  · have hy : y ≠ 0 := fun h => hshort (by rw [h]; exact Nat.zero_le _)
    refine .inr ?_
    rw [Nat.add_sub_cancel' (by omega)]
    exact Nat.log2_self_le hy

/-- On the same grid, by the quotients; otherwise the first ends where the second begins. -/
theorem nearest_mono {num num' den : Nat} (h : num ≤ num') (hden : 0 < den) :
    nearest num den ≤ nearest num' den := by
  have hstep : ∀ k, 0 < den * Nat.pow 2 k := fun k => Nat.mul_pos hden (Nat.two_pow_pos k)
  have hgrid : ∀ q k : Nat, q * (den * Nat.pow 2 k) = q * 2 ^ k * den := fun q k => by
    rw [Nat.mul_comm den, ← Nat.mul_assoc]
    rfl
  have hquot : num / den ≤ num' / den := Nat.div_le_div_right h
  obtain ⟨hfull, hshort⟩ := scale_bounds (num / den)
  obtain ⟨hfull', hshort'⟩ := scale_bounds (num' / den)
  unfold nearest
  dsimp only
  refine Nat.le_min.mpr ⟨Nat.min_le_left .., Nat.le_trans (Nat.min_le_right ..) ?_⟩
  generalize (num / den).log2 - 52 = s at hfull hshort
  generalize (num' / den).log2 - 52 = s' at hfull' hshort'
  rcases Nat.lt_trichotomy s s' with hlt | rfl | hgt
  · have hends : roundDiv num (den * Nat.pow 2 s) ≤ 2 * binade := by
      refine roundDiv_le ?_ (hstep s)
      rw [hgrid]
      exact Nat.le_of_lt ((Nat.div_lt_iff_lt_mul hden).mp hshort)
    have hbegins : binade ≤ roundDiv num' (den * Nat.pow 2 s') := by
      refine le_roundDiv ?_ (hstep s')
      rw [hgrid]
      exact (Nat.le_div_iff_mul_le hden).mp (hfull'.resolve_left (by omega))
    have hmul : (s + 1) * binade ≤ s' * binade := Nat.mul_le_mul_right binade hlt
    rw [Nat.succ_mul] at hmul
    omega
  · exact Nat.add_le_add_left (roundDiv_mono h (hstep s)) _
  · have hlow : binade * 2 ^ s ≤ num / den := hfull.resolve_left (by omega)
    have hpow : binade * 2 ^ (s' + 1) ≤ binade * 2 ^ s :=
      Nat.mul_le_mul_left binade (Nat.pow_le_pow_right (by omega) hgt)
    rw [Nat.pow_succ, Nat.mul_comm _ 2, ← Nat.mul_assoc, Nat.mul_comm binade] at hpow
    omega

/-- What is a value already is not rounded. -/
theorem nearest_units {den : Nat} (hden : 0 < den) (m : Nat) :
    nearest (units m * den) den = min infinity m := by
  obtain ⟨s, r, h, rfl⟩ := exists_isScaled m
  have hscale : (units (s * binade + r) * den / den).log2 - 52 = s := by
    rw [Nat.mul_div_cancel _ hden, h.units]
    refine log2_sub_eq (h.full.imp_right fun hfull => Nat.mul_le_mul_right _ hfull) ?_
    exact Nat.mul_lt_mul_of_pos_right h.short (Nat.two_pow_pos s)
  have hgrid : units (s * binade + r) * den = r * (den * 2 ^ s) := by
    rw [h.units, Nat.mul_assoc, Nat.mul_comm _ den]
  have hstep : 0 < den * 2 ^ s := Nat.mul_pos hden (Nat.two_pow_pos s)
  refine nearest_of_scale hden hscale ?_ ?_ ?_ <;>
    rw [hgrid] <;> simp only [Nat.add_mul, Nat.mul_assoc] <;> omega

theorem nearest_le_of_le {num den m : Nat} (hden : 0 < den) (h : num ≤ units m * den) :
    nearest num den ≤ m :=
  Nat.le_trans (nearest_mono h hden)
    (Nat.le_trans (Nat.le_of_eq (nearest_units hden m)) (Nat.min_le_right ..))

theorem le_nearest_of_le {num den m : Nat} (hden : 0 < den) (hm : m ≤ infinity)
    (h : units m * den ≤ num) : m ≤ nearest num den := by
  have hmono := nearest_mono h hden
  rwa [nearest_units hden, Nat.min_eq_right hm] at hmono

theorem magnitude_ofNat_mono {n n' : Nat} (h : n ≤ n') :
    (ofNat n).magnitude ≤ (ofNat n').magnitude :=
  nearest_mono (Nat.mul_le_mul_right unit h) Nat.one_pos

/-! ## Finite values -/

theorem unit_pos : 0 < unit := by decide +kernel

theorem isFinite_of_le {x : Binary64} {m : Nat} (hm : m < infinity) (h : x.magnitude ≤ m) :
    x.isFinite = true := decide_eq_true (Nat.lt_of_le_of_lt h hm)

theorem isFinite_zero (negative : Bool) : (zero negative).isFinite = true :=
  isFinite_of_le (by decide) (Nat.le_refl 0)

/-- The rank of `2 ^ 64`. -/
def wordRank : Nat := 1086 * binade + binade

theorem units_wordRank : units wordRank = UInt64.size * unit := by
  have hscaled : IsScaled 1086 binade := ⟨.inr (Nat.le_refl _), by decide⟩
  rw [wordRank, hscaled.units]
  decide +kernel

theorem isFinite_ofUnits_word {n : Nat} (h : n ≤ UInt64.size) (negative : Bool) :
    (ofUnits negative (n * unit) 1).isFinite = true := by
  refine isFinite_of_le (m := wordRank) (by decide) (nearest_le_of_le Nat.one_pos ?_)
  rw [units_wordRank, Nat.mul_one]
  exact Nat.mul_le_mul_right unit h

/-- The rank of one. -/
def oneRank : Nat := 1022 * binade + binade

theorem units_oneRank : units oneRank = unit := by
  have hscaled : IsScaled 1022 binade := ⟨.inr (Nat.le_refl _), by decide⟩
  rw [oneRank, hscaled.units]
  decide +kernel

/-- A quotient by one or more is no greater than its dividend. -/
theorem magnitude_scaleDown_le (x : Binary64) {y : Binary64} (hy : oneRank ≤ y.magnitude) :
    (x.scaleDown y).magnitude ≤ x.magnitude := by
  have hunit : unit ≤ units y.magnitude := units_oneRank ▸ units_mono hy
  exact nearest_le_of_le (Nat.lt_of_lt_of_le unit_pos hunit) (Nat.mul_le_mul_left _ hunit)

theorem isFinite_scaleDown {x y : Binary64} (hx : x.isFinite = true)
    (hy : oneRank ≤ y.magnitude) : (x.scaleDown y).isFinite = true :=
  isFinite_of_le (of_decide_eq_true hx) (magnitude_scaleDown_le x hy)

theorem magnitude_scaleUp_mono {x x' : Binary64} (h : x.magnitude ≤ x'.magnitude)
    (y : Binary64) : (x.scaleUp y).magnitude ≤ (x'.scaleUp y).magnitude :=
  nearest_mono (Nat.mul_le_mul_right _ (units_mono h)) unit_pos

/-- A finite value is a number, so that it equals itself. -/
theorem agrees_self {x : Binary64} (h : x.isFinite = true) : x.agrees x = true := by
  have hlt : x.magnitude < infinity := of_decide_eq_true h
  have hnan : x.isNaN = false := decide_eq_false (by omega)
  simp [agrees, hnan]

end Binary64

namespace Scaled

open Binary64 (oneRank)

theorem oneRank_le_powerOfTen (n : Nat) : oneRank ≤ (powerOfTen n).magnitude := by
  unfold powerOfTen Decimal.toBinary64
  dsimp only
  rw [if_neg (by omega)]
  split
  · decide
  rw [if_neg (by omega)]
  have hone : Nat.pow 10 (-(n : Int)).toNat = 1 := by
    rw [Int.toNat_of_nonpos (by omega), Nat.pow_eq, Nat.pow_zero]
  refine Binary64.le_nearest_of_le (hone ▸ Nat.one_pos) (by decide) ?_
  rw [Binary64.units_oneRank, hone, Nat.mul_one, Nat.one_mul, Int.toNat_natCast]
  exact Nat.le_mul_of_pos_left _ (Nat.pow_pos (by omega))

theorem isFinite_shrink {n : Nat} {x : Binary64} (h : x.isFinite = true) :
    (shrink n x).isFinite = true := by
  induction n generalizing x with
  | zero => exact h
  | succ n ih =>
    unfold shrink
    split
    · exact h
    · exact ih (Binary64.isFinite_scaleDown h (oneRank_le_powerOfTen 308))

/-- A significand of 64 bits, scaled by any power of ten, is finite or too large to be read. -/
theorem isFinite_toBinary64? {s : Scaled} {x : Binary64} (hs : s.significand ≤ maxSignificand)
    (h : s.toBinary64? = some x) : x.isFinite = true := by
  have hofNat : (Binary64.ofNat s.significand).isFinite = true :=
    Binary64.isFinite_ofUnits_word (Nat.le_trans hs (Nat.sub_le ..)) false
  unfold toBinary64? at h
  dsimp only at h
  split at h
  · split at h
    · split at h
      · cases h
        assumption
      · cases h
    · split at h
      · cases h
        exact hofNat
      · cases h
  · have hshrunk := isFinite_shrink (n := ((-s.exponent).toNat - 1) / 308) hofNat
    split at h
    · cases h
      exact hshrunk
    · cases h
      exact Binary64.isFinite_scaleDown hshrunk (oneRank_le_powerOfTen _)

/-! ## Numbers that were read -/

variable {negative : Bool} {s : Scaled} {src rest : Source} {n : Numeral}

theorem isFinite_toReal (h : toReal negative s = .ok n) (hs : s.significand ≤ maxSignificand) :
    n.toBinary64.isFinite = true := by
  unfold toReal at h
  split at h
  · rename_i x hx
    cases h
    have hfinite := isFinite_toBinary64? hs hx
    exact hfinite
  · cases h

theorem isFinite_toInteger {significand : Nat} (h : significand ≤ maxSignificand) :
    (toInteger negative significand).toBinary64.isFinite = true := by
  have hsize : significand ≤ UInt64.size := Nat.le_trans h (Nat.sub_le ..)
  unfold toInteger
  split
  · exact Binary64.isFinite_ofUnits_word (by simpa using hsize) _
  split
  · exact Binary64.isFinite_ofUnits_word hsize false
  · exact Binary64.isFinite_ofUnits_word (by simpa using hsize) _

theorem isFinite_readExponent (hs : s.significand ≤ maxSignificand)
    (h : readExponent negative s src = .ok (n, rest)) : n.toBinary64.isFinite = true := by
  unfold readExponent at h
  split at h
  split at h
  · cases h
  split at h
  · cases h
  split at h
  · obtain ⟨n, hreal, h⟩ := bind_eq_ok h
    cases h
    exact isFinite_toReal hreal hs
  · split at h
    · cases h
    · cases h
      exact Binary64.isFinite_zero negative

theorem isFinite_readEnd (hs : s.significand ≤ maxSignificand)
    (h : readEnd negative s src = .ok (n, rest)) : n.toBinary64.isFinite = true := by
  unfold readEnd at h
  split at h
  · split at h
    · exact isFinite_readExponent hs h
    · obtain ⟨n, hreal, h⟩ := bind_eq_ok h
      cases h
      exact isFinite_toReal hreal hs
  · obtain ⟨n, hreal, h⟩ := bind_eq_ok h
    cases h
    exact isFinite_toReal hreal hs

/-- The significand never outgrows 64 bits. -/
theorem digits_le {significand count : Nat} (h : significand ≤ maxSignificand) :
    (digits src significand count).1 ≤ maxSignificand := by
  fun_induction digits src significand count with
  | case1 significand count => exact h
  | case2 significand count s rest d hd hfits ih => exact ih hfits
  | case3 significand count s rest d hd hfull => exact h
  | case4 significand count s rest hd => exact h

theorem isFinite_readFraction (hs : s.significand ≤ maxSignificand)
    (h : readFraction negative s src = .ok (n, rest)) : n.toBinary64.isFinite = true := by
  unfold readFraction at h
  split at h
  · cases h
  split at h
  · cases h
  · rename_i d src _
    have hdigits : (digits (d :: src) s.significand 0).1 ≤ maxSignificand := digits_le hs
    generalize digits (d :: src) s.significand 0 = taken at h hdigits
    exact isFinite_readEnd hdigits h

theorem isFinite_readUnsigned (h : readUnsigned negative src = .ok (n, rest)) :
    n.toBinary64.isFinite = true := by
  have hdigits : ∀ src, (digits src 0 0).1 ≤ maxSignificand := fun _ => digits_le (Nat.zero_le _)
  unfold readUnsigned at h
  split at h
  · cases h
  split at h
  · cases h
  split at h
  · cases h
  dsimp only at h
  split at h
  · exact isFinite_readFraction (hdigits _) h
  split at h
  · exact isFinite_readEnd (hdigits _) h
  split at h
  · split at h
    · exact isFinite_readExponent (hdigits _) h
    · cases h
      exact isFinite_toInteger (hdigits _)
  · cases h
    exact isFinite_toInteger (hdigits _)

/-- Every number that can be read is finite. -/
theorem isFinite_read (h : read src = .ok (n, rest)) : n.toBinary64.isFinite = true := by
  unfold read at h
  split at h <;> exact isFinite_readUnsigned h

end Scaled

end SceneScript
