import SceneScript.Proofs.Number.Rounding
import SceneScript.Editor.Control

/-! Plain numbers read back. The decimal that is written lies between the halfway points around its
value, whether it was found on a coarse grid or is the exact one; whatever lies there is rounded to
that value. The digits stand where they can be read, and nothing around them is white space. -/

namespace SceneScript

/-! ## The decimal that is written -/

namespace Decimal

theorem halfUnit_pos : 0 < halfUnit := by decide +kernel

theorem Interval.contains_exact {m : Nat} (h : 0 < m) :
    (ofMagnitude m).contains (ofMagnitude m).exact = true := by
  obtain ⟨n, rfl⟩ := Nat.exists_eq_succ_of_ne_zero (Nat.ne_of_gt h)
  have hhalf := halfUnit_pos
  have hbelow := Nat.mul_lt_mul_of_pos_right (Binary64.units_lt_succ n) hhalf
  have habove := Nat.mul_lt_mul_of_pos_right (Binary64.units_lt_succ (n + 1)) hhalf
  have hl : (ofMagnitude (n + 1)).lower < (ofMagnitude (n + 1)).exact := by
    simp only [ofMagnitude, Nat.add_mul, Nat.mul_assoc, Nat.add_sub_cancel]
    omega
  have hu : (ofMagnitude (n + 1)).exact < (ofMagnitude (n + 1)).upper := by
    simp only [ofMagnitude, Nat.add_mul, Nat.mul_assoc]
    omega
  unfold contains
  split
  · simp [Nat.le_of_lt hl, Nat.le_of_lt hu]
  · simp [hl, hu]

theorem Interval.contains_onGrid? {i : Interval} {tie : Tie} {j digits : Nat}
    (h : i.onGrid? tie j = some digits) : i.contains (digits * 10 ^ j) = true := by
  unfold onGrid? at h
  dsimp only at h
  change i.contains (digits * Nat.pow 10 j) = true
  cases hbelow : i.contains (i.exact / Nat.pow 10 j * Nat.pow 10 j) with
  | true =>
    cases habove : i.contains ((i.exact / Nat.pow 10 j + 1) * Nat.pow 10 j) with
    | true =>
      rw [hbelow, habove] at h
      have hdigits : digits = i.exact / Nat.pow 10 j ∨ digits = i.exact / Nat.pow 10 j + 1 := by
        simp only at h
        split at h <;> cases h <;> omega
      rcases hdigits with rfl | rfl
      · exact hbelow
      · exact habove
    | false =>
      rw [hbelow, habove] at h
      cases h
      exact hbelow
  | false =>
    cases habove : i.contains ((i.exact / Nat.pow 10 j + 1) * Nat.pow 10 j) with
    | true =>
      rw [hbelow, habove] at h
      cases h
      exact habove
    | false =>
      rw [hbelow, habove] at h
      cases h

theorem Interval.contains_coarsest {i : Interval} (h : i.contains i.exact = true) (tie : Tie)
    (j : Nat) : i.contains ((i.coarsest tie j).1 * 10 ^ (i.coarsest tie j).2) = true := by
  induction j with
  | zero => simpa [coarsest] using h
  | succ j ih =>
    unfold coarsest
    cases hgrid : i.onGrid? tie (j + 1) with
    | none => exact ih
    | some digits => exact contains_onGrid? hgrid

/-- The exponent of a decimal, counted from that of the finest grid. -/
def fineExponent (d : Decimal) : Nat := (d.exponent + 1075).toNat

/-- The decimal is a multiple of the finest grid's step, and reads back to the magnitude. -/
structure ReadsTo (d : Decimal) (m : Nat) : Prop where
  fine : -1075 ≤ d.exponent
  near : (Interval.ofMagnitude m).contains (d.digits * 10 ^ d.fineExponent) = true

theorem readsTo_coarsest (tie : Tie) (k : Nat) {m : Nat} (h : 0 < m) :
    ReadsTo (let (digits, j) := (Interval.ofMagnitude m).coarsest tie k
      ⟨digits, j - 1075⟩) m := by
  have hnear := Interval.contains_coarsest (Interval.contains_exact h) tie k
  generalize (Interval.ofMagnitude m).coarsest tie k = found at hnear ⊢
  obtain ⟨digits, j⟩ := found
  have hfine : ((j : Int) - 1075 + 1075).toNat = j := by omega
  refine ⟨by dsimp only; omega, ?_⟩
  rwa [fineExponent, hfine]

theorem readsTo_shortest (tie : Tie) {m : Nat} (h : 0 < m) : (shortest tie m).ReadsTo m := by
  unfold shortest
  rw [if_neg (Nat.ne_of_gt h)]
  exact readsTo_coarsest tie ((Interval.ofMagnitude m).upper.log2 * 30103 / 100000 + 1) h

/-! ## Rounding it -/

theorem ReadsTo.bounds {d : Decimal} {m : Nat} (h : d.ReadsTo m) :
    (Binary64.units (m - 1) + Binary64.units m) * halfUnit ≤ d.digits * 10 ^ d.fineExponent ∧
      d.digits * 10 ^ d.fineExponent ≤ (Binary64.units m + Binary64.units (m + 1)) * halfUnit ∧
      ((Binary64.units (m - 1) + Binary64.units m) * halfUnit = d.digits * 10 ^ d.fineExponent ∨
        d.digits * 10 ^ d.fineExponent = (Binary64.units m + Binary64.units (m + 1)) * halfUnit →
        m % 2 = 0) := by
  have hnear := h.near
  unfold Interval.contains Interval.ofMagnitude at hnear
  dsimp only at hnear
  by_cases heven : m % 2 = 0
  · simp only [heven, beq_self_eq_true, if_true, Bool.and_eq_true, decide_eq_true_eq] at hnear
    exact ⟨hnear.1, hnear.2, fun _ => heven⟩
  · simp only [beq_iff_eq, heven, if_false, Bool.and_eq_true, decide_eq_true_eq] at hnear
    exact ⟨Nat.le_of_lt hnear.1, Nat.le_of_lt hnear.2, fun ht => by omega⟩

theorem ten_pow_fine : 10 ^ 1075 = 2 * Binary64.unit * halfUnit := by decide +kernel

/-- The quotient that is rounded, on the scale of the finest grid. -/
theorem fine_quotient {d : Decimal} (h : -1075 ≤ d.exponent) :
    2 * (d.digits * 10 ^ d.exponent.toNat * Binary64.unit) * halfUnit =
      d.digits * 10 ^ d.fineExponent * 10 ^ (-d.exponent).toNat := by
  have hexponent : d.exponent.toNat + 1075 = d.fineExponent + (-d.exponent).toNat := by
    unfold fineExponent
    omega
  have hgather : ∀ a u k : Nat, 2 * (a * u) * k = a * (2 * u * k) := by
    intro a u k
    ac_rfl
  calc 2 * (d.digits * 10 ^ d.exponent.toNat * Binary64.unit) * halfUnit
      = d.digits * 10 ^ d.exponent.toNat * (2 * Binary64.unit * halfUnit) := hgather _ _ _
    _ = d.digits * 10 ^ d.exponent.toNat * 10 ^ 1075 :=
      congrArg (d.digits * 10 ^ d.exponent.toNat * ·) ten_pow_fine.symm
    _ = d.digits * 10 ^ (d.exponent.toNat + 1075) := by rw [Nat.pow_add, Nat.mul_assoc]
    _ = d.digits * 10 ^ d.fineExponent * 10 ^ (-d.exponent).toNat := by
      rw [hexponent, Nat.pow_add, Nat.mul_assoc]

theorem two_halfUnit_infinity :
    (Binary64.units Binary64.infinity + Binary64.units Binary64.infinity) * halfUnit <
      10 ^ 1384 := by
  decide +kernel

theorem ReadsTo.digits_ne_zero {d : Decimal} {m : Nat} (h : d.ReadsTo m) (hm : 0 < m) :
    d.digits ≠ 0 := by
  intro hzero
  have hhalf := halfUnit_pos
  obtain ⟨hl, -, -⟩ := h.bounds
  rw [hzero, Nat.zero_mul, Nat.le_zero, Nat.mul_eq_zero] at hl
  have hpos := Binary64.units_pos hm
  omega

/-- What reads back to a finite rank has no greater power of ten than the finite values. -/
theorem ReadsTo.exponent_lt {d : Decimal} {m : Nat} (h : d.ReadsTo m) (hdigits : d.digits ≠ 0)
    (hfinite : m < Binary64.infinity) : d.exponent < 309 := by
  refine Int.not_le.mp fun hlarge => ?_
  obtain ⟨-, hu, -⟩ := h.bounds
  have hpower : 10 ^ 1384 ≤ d.digits * 10 ^ d.fineExponent :=
    calc 10 ^ 1384 ≤ 10 ^ d.fineExponent := by
          unfold fineExponent
          gcongr
          · decide
          · omega
      _ ≤ d.digits * 10 ^ d.fineExponent :=
          Nat.le_mul_of_pos_left _ (Nat.pos_of_ne_zero hdigits)
  have hupper : (Binary64.units m + Binary64.units (m + 1)) * halfUnit ≤
      (Binary64.units Binary64.infinity + Binary64.units Binary64.infinity) * halfUnit :=
    Nat.mul_le_mul_right _ (Nat.add_le_add (Binary64.units_mono (Nat.le_of_lt hfinite))
      (Binary64.units_mono hfinite))
  exact Nat.lt_irrefl _ (Nat.lt_of_lt_of_le two_halfUnit_infinity
    (Nat.le_trans hpower (Nat.le_trans hu hupper)))

theorem ReadsTo.toBinary64 {d : Decimal} {m : Nat} (h : d.ReadsTo m) (hm : 0 < m)
    (hfinite : m < Binary64.infinity) (negative : Bool) :
    d.toBinary64 negative = ⟨negative, m, Nat.lt_trans hfinite Binary64.infinity_lt⟩ := by
  obtain ⟨hl, hu, htie⟩ := h.bounds
  have hhalf := halfUnit_pos
  have hquotient := fine_quotient h.fine
  have hden : 0 < 10 ^ (-d.exponent).toNat := Nat.pow_pos (by decide)
  -- both comparisons are made on the finest grid, where the quotient has no denominator
  have hscaled : ∀ b : Nat, b * 10 ^ (-d.exponent).toNat * halfUnit =
      b * halfUnit * 10 ^ (-d.exponent).toNat := fun b => Nat.mul_right_comm ..
  have hnearest : Binary64.nearest (d.digits * 10 ^ d.exponent.toNat * Binary64.unit)
      (10 ^ (-d.exponent).toNat) = m := by
    refine Binary64.nearest_eq hden hm (Nat.le_of_lt hfinite) ?_ ?_
      fun ht => htie (ht.imp (fun ht => ?_) fun ht => ?_)
    · refine Nat.le_of_mul_le_mul_right ?_ hhalf
      rw [hquotient, hscaled]
      exact Nat.mul_le_mul_right _ hl
    · refine Nat.le_of_mul_le_mul_right ?_ hhalf
      rw [hquotient, hscaled]
      exact Nat.mul_le_mul_right _ hu
    · refine Nat.eq_of_mul_eq_mul_right hden ?_
      rw [← hquotient, ← hscaled, ht]
    · refine Nat.eq_of_mul_eq_mul_right hden ?_
      rw [← hquotient, ← hscaled, ht]
  rw [toBinary64_eq]
  exact Binary64.mk.injEq .. ▸ ⟨rfl, hnearest⟩

end Decimal
end SceneScript
