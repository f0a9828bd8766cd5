import SceneScript.Proofs.Number.Bounds
import SceneScript.Proofs.Number.Shortest

/-! Why a finite value that is written can be read again. The reader rounds the digits, the power of
ten and the product, so what it comes to can be some ranks away from what was written, and close to
the greatest value that could be too large. It never is: the digits are the fewest that do, which
leaves few powers of ten for them, and for each of these the greatest number of digits that may
occur is tried. -/

namespace SceneScript

open Binary64 (infinity units)

namespace Decimal

/-! ## The fewest digits -/

/-- A grid without a hit is no finer than the interval is long. -/
theorem Interval.length_le_of_none {i : Interval} {tie : Tie} {j : Nat}
    (hl : i.lower ≤ i.exact) (hu : i.exact < i.upper) (h : i.onGrid? tie j = none) :
    i.upper ≤ i.lower + 10 ^ j := by
  have hpos : 0 < 10 ^ j := Nat.pow_pos (by omega)
  have hdiv := Nat.div_add_mod i.exact (10 ^ j)
  have hmod := Nat.mod_lt i.exact hpos
  rw [Nat.mul_comm] at hdiv
  unfold onGrid? at h
  dsimp only at h
  split at h
  · split at h <;> cases h
  · cases h
  · cases h
  · rename_i hbelow habove
    have hout : i.exact / 10 ^ j * 10 ^ j ≤ i.lower := by
      unfold contains at hbelow
      split at hbelow <;> simp at hbelow <;> omega
    have hout' : i.upper ≤ (i.exact / 10 ^ j + 1) * 10 ^ j := by
      rw [Nat.add_mul, Nat.one_mul] at habove ⊢
      unfold contains at habove
      split at habove <;> simp at habove <;> omega
    rw [Nat.add_mul, Nat.one_mul] at hout'
    omega

/-- The coarsest grid with a hit is the first one looked at, or the one before it had none. -/
theorem Interval.coarsest_cases {i : Interval} (tie : Tie) (k : Nat) :
    (i.coarsest tie k).2 = k ∨ i.onGrid? tie ((i.coarsest tie k).2 + 1) = none := by
  induction k with
  | zero => exact .inl rfl
  | succ k ih =>
    unfold coarsest
    cases hgrid : i.onGrid? tie (k + 1) with
    | some digits => exact .inl rfl
    | none =>
      rcases ih with heq | hnone
      · exact .inr (by rw [heq]; exact hgrid)
      · exact .inr hnone

/-- The grid the search starts on. -/
def firstGrid (m : Nat) : Nat := (Interval.ofMagnitude m).upper.log2 * 30103 / 100000 + 1

/-- The decimal that is written is on the first grid, or the next grid has no room for the interval
between two of its points. -/
theorem shortest_cases (tie : Tie) {m : Nat} (hm : 0 < m) :
    (shortest tie m).fineExponent = firstGrid m ∨
      units (m + 1) * halfUnit ≤
        units (m - 1) * halfUnit + 10 ^ ((shortest tie m).fineExponent + 1) := by
  have hhalf := halfUnit_pos
  have hpred : units (m - 1) ≤ units m := Binary64.units_mono (Nat.sub_le m 1)
  have hsucc := Binary64.units_lt_succ m
  have hl : (Interval.ofMagnitude m).lower ≤ (Interval.ofMagnitude m).exact :=
    Nat.mul_le_mul_right _ (by omega)
  have hu : (Interval.ofMagnitude m).exact < (Interval.ofMagnitude m).upper :=
    Nat.mul_lt_mul_of_pos_right (by omega) hhalf
  have hlength : ∀ j, (Interval.ofMagnitude m).onGrid? tie j = none →
      units (m + 1) * halfUnit ≤ units (m - 1) * halfUnit + 10 ^ j := by
    intro j hnone
    have hlength := Interval.length_le_of_none hl hu hnone
    simp only [Interval.ofMagnitude, Nat.add_mul] at hlength
    omega
  -- with the interval left open, nothing is computed from its bounds
  unfold shortest firstGrid
  rw [if_neg (Nat.ne_of_gt hm)]
  generalize Interval.ofMagnitude m = i at hlength ⊢
  have hcases := Interval.coarsest_cases (i := i) tie (i.upper.log2 * 30103 / 100000 + 1)
  dsimp -iota only
  generalize i.coarsest tie _ = found at hcases ⊢
  obtain ⟨digits, j⟩ := found
  have hfine : (⟨digits, j - 1075⟩ : Decimal).fineExponent = j := by
    unfold fineExponent
    dsimp only
    omega
  dsimp only at hcases ⊢
  rw [hfine]
  exact hcases.imp_right (hlength (j + 1))

/-- Powers of two numbers are compared by those of one exponent each. -/
theorem pow_le_pow_of_root {a b e f n k : Nat} (hb : 0 < b) (he : e ≠ 0)
    (h : Nat.pow a e ≤ Nat.pow b f) (hk : f * n ≤ k * e) : a ^ n ≤ b ^ k := by
  refine (Nat.pow_le_pow_iff_left he).mp ?_
  calc (a ^ n) ^ e = (a ^ e) ^ n := Nat.pow_right_comm ..
    _ ≤ (b ^ f) ^ n := Nat.pow_le_pow_left h n
    _ = b ^ (f * n) := (Nat.pow_mul ..).symm
    _ ≤ b ^ (k * e) := Nat.pow_le_pow_right hb hk
    _ = (b ^ k) ^ e := Nat.pow_mul ..

/-- One pair of exponents that serves all powers of two. -/
theorem exists_root : ∃ e f : Nat, e ≠ 0 ∧ (∀ n, f * n ≤ (n * 30103 / 100000 + 1) * e) ∧
    Nat.pow 2 e ≤ Nat.pow 10 f :=
  ⟨13301, 4004, Nat.succ_ne_zero 13300, fun n => by omega,
    Nat.le_of_ble_eq_true (by decide +kernel)⟩

theorem two_pow_le_ten_pow (n : Nat) : 2 ^ n ≤ 10 ^ (n * 30103 / 100000 + 1) := by
  obtain ⟨e, f, he, hn, hpow⟩ := exists_root
  exact pow_le_pow_of_root (Nat.succ_pos 9) he hpow (hn n)

/-- The digits that are written fit 64 bits. -/
theorem digits_shortest_le (tie : Tie) {m : Nat} (hm : 0 < m) :
    (shortest tie m).digits ≤ 40 * binade := by
  obtain ⟨-, hu, -⟩ := (readsTo_shortest tie hm).bounds
  have hhalf := halfUnit_pos
  have hten : 0 < 10 ^ (shortest tie m).fineExponent := Nat.pow_pos (by omega)
  rcases shortest_cases tie hm with hfirst | hnext
  · -- on the first grid, the whole interval is below two steps
    have hupper := Nat.lt_log2_self (n := (Interval.ofMagnitude m).upper)
    rw [Nat.pow_succ, Nat.mul_comm] at hupper
    have hlog := Nat.lt_of_lt_of_le hupper (Nat.mul_le_mul_left 2 (two_pow_le_ten_pow _))
    simp only [Interval.ofMagnitude] at hlog
    unfold firstGrid Interval.ofMagnitude at hfirst
    rw [← hfirst] at hlog
    have hlt := Nat.lt_of_mul_lt_mul_right (Nat.lt_of_le_of_lt hu hlog)
    have hbinade : 2 ≤ 40 * binade := by decide
    omega
  · obtain ⟨s, r, h, rfl⟩ := Binary64.exists_isScaled m
    have hpred := Nat.mul_le_mul_right halfUnit
      (Binary64.units_mono (Nat.sub_le (s * binade + r) 1))
    rw [h.units, h.units_succ] at hu
    rw [h.units_succ, Nat.add_mul, Nat.add_mul, Nat.one_mul] at hnext
    rw [h.units] at hpred
    have hshort := h.short
    generalize (shortest tie (s * binade + r)).fineExponent = j at hu hnext hten
    generalize (shortest tie (s * binade + r)).digits = digits at hu
    have hstep : 2 ^ s * halfUnit ≤ 10 * 10 ^ j := by
      rw [Nat.pow_succ, Nat.mul_comm _ 10] at hnext
      omega
    have hsum : r + (r + 1) = 2 * r + 1 := by omega
    refine Nat.le_of_mul_le_mul_right (Nat.le_trans hu ?_) hten
    calc (r * 2 ^ s + (r + 1) * 2 ^ s) * halfUnit = (2 * r + 1) * (2 ^ s * halfUnit) := by
          rw [← Nat.add_mul, hsum, Nat.mul_assoc]
      _ ≤ (2 * r + 1) * (10 * 10 ^ j) := Nat.mul_le_mul_left _ hstep
      _ = (10 * (2 * r + 1)) * 10 ^ j := by
          rw [← Nat.mul_assoc, Nat.mul_comm _ 10]
      _ ≤ 40 * binade * 10 ^ j := Nat.mul_le_mul_right _ (by omega)

end Decimal

/-! ## The product of digits and a power of ten -/

namespace Scaled

theorem magnitude_powerOfTen_mono {n n' : Nat} (h : n ≤ n') (hn : n' < 310) :
    (powerOfTen n).magnitude ≤ (powerOfTen n').magnitude := by
  have hvalue : ∀ k < 310, powerOfTen k = Binary64.ofUnits false (10 ^ k * Binary64.unit) 1 := by
    intro k hk
    have hone : Nat.pow 10 (-(k : Int)).toNat = 1 := by
      rw [Int.toNat_of_nonpos (by omega), Nat.pow_eq, Nat.pow_zero]
    unfold powerOfTen Decimal.toBinary64
    dsimp only
    rw [if_neg (by omega), if_neg (by omega), if_neg (by omega), hone, Int.toNat_natCast,
      Nat.one_mul, Nat.pow_eq]
  rw [hvalue n (by omega), hvalue n' hn]
  exact Binary64.nearest_mono
    (Nat.mul_le_mul_right _ (Nat.pow_le_pow_right (by omega) h)) Nat.one_pos

/-- What digits and a power of ten are read as. -/
def product (digits e : Nat) : Binary64 := (Binary64.ofNat digits).scaleUp (powerOfTen e)

theorem isFinite_product_mono {n n' e e' : Nat} (hn : n ≤ n') (he : e ≤ e') (hlarge : e' < 310)
    (h : (product n' e').isFinite = true) : (product n e).isFinite = true := by
  refine Binary64.isFinite_of_le (of_decide_eq_true h) ?_
  refine Nat.le_trans (Binary64.magnitude_scaleUp_mono (Binary64.magnitude_ofNat_mono hn) _) ?_
  exact Binary64.nearest_mono
    (Nat.mul_le_mul_left _ (Binary64.units_mono (magnitude_powerOfTen_mono he hlarge)))
    Binary64.unit_pos

/-- The greatest digits that are written with a power of ten, the greatest value left aside. -/
def greatestDigits (e : Nat) : Nat :=
  min (40 * binade)
    ((units (infinity - 2) + units (infinity - 1)) * Decimal.halfUnit / 10 ^ (e + 1075))

/-- Up to this power of ten all digits may be written. -/
theorem greatestDigits_all : greatestDigits 290 = 40 * binade := by decide +kernel

theorem isFinite_product_greatest :
    ∀ k < 19, (product (greatestDigits (290 + k)) (290 + k)).isFinite = true := by
  decide +kernel

theorem shortest_last :
    Decimal.shortest .even (infinity - 1) = ⟨17976931348623157, 292⟩ := by
  decide +kernel

theorem isFinite_product_last : (product 17976931348623157 292).isFinite = true := by
  decide +kernel

theorem digits_le_greatest {m : Nat} (hm : 0 < m) (hlast : m + 1 ≤ infinity - 1)
    (he : 0 ≤ (Decimal.shortest .even m).exponent) :
    (Decimal.shortest .even m).digits ≤
      greatestDigits (Decimal.shortest .even m).exponent.toNat := by
  obtain ⟨-, hu, -⟩ := (Decimal.readsTo_shortest .even hm).bounds
  have hfine : (Decimal.shortest .even m).fineExponent =
      (Decimal.shortest .even m).exponent.toNat + 1075 := by
    unfold Decimal.fineExponent
    omega
  rw [hfine] at hu
  have hlower : m ≤ infinity - 2 := by omega
  have hsum := Nat.add_le_add (Binary64.units_mono hlower) (Binary64.units_mono hlast)
  exact Nat.le_min.mpr ⟨Decimal.digits_shortest_le .even hm,
    (Nat.le_div_iff_mul_le (Nat.pow_pos (by omega))).mpr
      (Nat.le_trans hu (Nat.mul_le_mul_right _ hsum))⟩

/-- What is written of a finite value with a power of ten is read as a finite value. -/
theorem isFinite_product_shortest {m : Nat} (hm : 0 < m) (hfinite : m < infinity)
    (he : 0 ≤ (Decimal.shortest .even m).exponent) :
    (product (Decimal.shortest .even m).digits
      (Decimal.shortest .even m).exponent.toNat).isFinite = true := by
  by_cases hlast : m = infinity - 1
  · rw [hlast, shortest_last]
    exact isFinite_product_last
  · have hreads := Decimal.readsTo_shortest .even hm
    have hlarge := hreads.exponent_lt (hreads.digits_ne_zero hm) hfinite
    have hdigits := digits_le_greatest hm (by omega) he
    have hfits := Decimal.digits_shortest_le .even hm
    generalize Decimal.shortest .even m = d at he hlarge hdigits hfits
    by_cases hsmall : d.exponent.toNat ≤ 290
    · exact isFinite_product_mono (greatestDigits_all ▸ hfits) hsmall (by omega)
        (isFinite_product_greatest 0 (by omega))
    · obtain ⟨k, hk⟩ := Nat.exists_eq_add_of_le (Nat.le_of_not_le hsmall)
      have hproduct := isFinite_product_greatest k (by omega)
      rw [← hk] at hproduct
      exact isFinite_product_mono hdigits (Nat.le_refl _) (by omega) hproduct

end Scaled

end SceneScript
