import Mathlib.Algebra.Order.Field.Rat
import Mathlib.Tactic.FieldSimp
import Mathlib.Tactic.GCongr
import Mathlib.Tactic.Linarith
import Mathlib.Tactic.Ring
import SceneScript.Number.Decimal
import SceneScript.Proofs.Number.Bounds

/-! Rounding, said without the way it is computed. A number is rounded to the rank whose absolute
value is closest to it, and where two are equally close, to the even one; infinity takes part as if
it were the next power of two. There is one such rank for every number, and it is what `nearest`
comes to, and what a decimal is read as. -/

namespace SceneScript

namespace Binary64

/-- The absolute value of a rank. -/
def absolute (m : Nat) : ℚ := units m / unit

/-- The rank a number that is not negative is rounded to, a tie to the even one. -/
structure IsNearest (q : ℚ) (m : Nat) : Prop where
  rank : m ≤ infinity
  closest : ∀ k ≤ infinity, |q - absolute m| ≤ |q - absolute k|
  even : ∀ k ≤ infinity, k ≠ m → |q - absolute m| = |q - absolute k| → m % 2 = 0

theorem unit_pos_rat : (0 : ℚ) < unit := by exact_mod_cast unit_pos

theorem absolute_lt_succ (m : Nat) : absolute m < absolute (m + 1) := by
  unfold absolute
  have hunits : (units m : ℚ) < units (m + 1) := by exact_mod_cast units_lt_succ m
  exact div_lt_div_of_pos_right hunits unit_pos_rat

theorem absolute_strictMono : StrictMono absolute := strictMono_nat_of_lt_succ absolute_lt_succ

/-! ## One rank is nearest -/

/-- A number between the points halfway to the neighbours of a rank is rounded to it. -/
theorem IsNearest.of_halfway {q : ℚ} {m : Nat} (hm : m ≤ infinity)
    (hl : 0 < m → absolute (m - 1) + absolute m ≤ 2 * q)
    (hu : m < infinity → 2 * q ≤ absolute m + absolute (m + 1))
    (htie : 0 < m ∧ absolute (m - 1) + absolute m = 2 * q ∨
      m < infinity ∧ 2 * q = absolute m + absolute (m + 1) → m % 2 = 0) :
    IsNearest q m := by
  -- a rank below is no closer than the one before, a rank above no closer than the one after
  have hbelow : ∀ k < m, |q - absolute m| ≤ |q - absolute k| ∧
      (|q - absolute m| = |q - absolute k| → m % 2 = 0) := by
    intro k hk
    have hl := hl (by omega)
    have hpred : absolute k ≤ absolute (m - 1) := absolute_strictMono.monotone (by omega)
    have hlt : absolute (m - 1) < absolute m := absolute_strictMono (by omega)
    rw [abs_of_nonneg (a := q - absolute k) (by linarith)]
    refine ⟨abs_le.mpr ⟨by linarith, by linarith⟩, fun heq => htie (.inl ⟨by omega, ?_⟩)⟩
    rcases abs_choice (q - absolute m) with h | h <;> rw [h] at heq <;> linarith
  have habove : ∀ k ≤ infinity, m < k → |q - absolute m| ≤ |q - absolute k| ∧
      (|q - absolute m| = |q - absolute k| → m % 2 = 0) := by
    intro k hk hlt
    have hfinite : m < infinity := Nat.lt_of_lt_of_le hlt hk
    have hu := hu hfinite
    have hsucc : absolute (m + 1) ≤ absolute k := absolute_strictMono.monotone hlt
    have hlt := absolute_lt_succ m
    rw [abs_of_nonpos (a := q - absolute k) (by linarith)]
    refine ⟨abs_le.mpr ⟨by linarith, by linarith⟩, fun heq => htie (.inr ⟨hfinite, ?_⟩)⟩
    rcases abs_choice (q - absolute m) with h | h <;> rw [h] at heq <;> linarith
  refine ⟨hm, fun k hk => ?_, fun k hk hne => ?_⟩
  · rcases Nat.lt_trichotomy k m with hlt | rfl | hlt
    · exact (hbelow k hlt).1
    · exact le_refl _
    · exact (habove k hk hlt).1
  · rcases Nat.lt_or_gt_of_ne hne with hlt | hlt
    · exact (hbelow k hlt).2
    · exact (habove k hk hlt).2

/-- Between two even ranks equally close there is a closer one. -/
theorem IsNearest.unique {q : ℚ} {m n : Nat} (hm : IsNearest q m) (hn : IsNearest q n) :
    m = n := by
  wlog hlt : m < n generalizing m n
  · rcases Nat.lt_or_eq_of_le (Nat.le_of_not_lt hlt) with h | h
    · exact (this hn hm h).symm
    · exact h.symm
  have hdist : |q - absolute m| = |q - absolute n| :=
    le_antisymm (hm.closest n hn.rank) (hn.closest m hm.rank)
  have heven := hm.even n hn.rank (Nat.ne_of_gt hlt) hdist
  have heven' := hn.even m hm.rank (Nat.ne_of_lt hlt) hdist.symm
  have hinside := hm.closest (m + 1) (Nat.le_trans hlt hn.rank)
  have hlow := absolute_lt_succ m
  have hhigh : absolute (m + 1) < absolute n := absolute_strictMono (by omega)
  rcases abs_eq_abs.mp hdist with heq | heq
  · linarith
  · rw [abs_of_pos (a := q - absolute m) (by linarith)] at hinside
    rcases abs_choice (q - absolute (m + 1)) with h | h <;> rw [h] at hinside <;> linarith

/-! ## It is computed -/

theorem nearest_eq_zero {num den : Nat} (hden : 0 < den) (h : 2 * num ≤ den) :
    nearest num den = 0 := by
  have hscale : (num / den).log2 - 52 = 0 := by
    rw [Nat.div_eq_of_lt (by omega)]
    rfl
  refine (nearest_of_scale (r := 0) hden hscale ?_ ?_ fun _ => rfl).trans (Nat.min_eq_right ?_) <;>
    simp [h]

/-- The quotient is between the points halfway to the neighbours of the rank, where zero has none
below and infinity none above. -/
structure Halfway (num den m : Nat) : Prop where
  rank : m ≤ infinity
  lower : 0 < m → (units (m - 1) + units m) * den ≤ 2 * num
  upper : m < infinity → 2 * num ≤ (units m + units (m + 1)) * den
  even : 0 < m ∧ (units (m - 1) + units m) * den = 2 * num ∨
    m < infinity ∧ 2 * num = (units m + units (m + 1)) * den → m % 2 = 0

/-- The quotient is above the point halfway to the rank before, or on it and the rank is even. -/
def Reaches (num den m : Nat) : Prop :=
  0 < m → (units (m - 1) + units m) * den < 2 * num ∨
    (units (m - 1) + units m) * den = 2 * num ∧ m % 2 = 0

/-- There is a last rank that is reached. -/
theorem exists_last_reached (num den : Nat) : ∃ m ≤ infinity, Reaches num den m ∧
    (m < infinity → ¬Reaches num den (m + 1)) := by
  classical
  exact ⟨Nat.findGreatest (Reaches num den) infinity, Nat.findGreatest_le infinity,
    Nat.findGreatest_spec (Nat.zero_le infinity) nofun,
    fun hm => Nat.findGreatest_is_greatest (Nat.lt_succ_self _) hm⟩

theorem exists_halfway (num den : Nat) : ∃ m, Halfway num den m := by
  obtain ⟨m, hrank, hreached, hlast⟩ := exists_last_reached num den
  have hupper : m < infinity → 2 * num ≤ (units m + units (m + 1)) * den ∧
      (2 * num = (units m + units (m + 1)) * den → m % 2 = 0) := by
    intro hm
    have hnot := hlast hm
    simp only [Reaches, Nat.succ_pos, Nat.add_sub_cancel, true_implies, not_or, not_and] at hnot
    omega
  refine ⟨m, hrank, fun hm => ?_, fun hm => (hupper hm).1, ?_⟩
  · have hlower := hreached hm
    omega
  · rintro (⟨hm, heq⟩ | ⟨hm, heq⟩)
    · have hlower := hreached hm
      omega
    · exact (hupper hm).2 heq

theorem Halfway.nearest {num den m : Nat} (hden : 0 < den) (h : Halfway num den m) :
    nearest num den = m := by
  rcases Nat.eq_zero_or_pos m with rfl | hm
  · have hu := h.upper (by decide)
    have hfirst : units 0 + units (0 + 1) = 1 := by decide
    rw [hfirst, Nat.one_mul] at hu
    exact nearest_eq_zero hden hu
  rcases Nat.lt_or_eq_of_le h.rank with hlt | rfl
  · exact nearest_eq hden hm h.rank (h.lower hm) (h.upper hlt) fun ht =>
      h.even (ht.imp (fun ht => ⟨hm, ht⟩) fun ht => ⟨hlt, ht⟩)
  by_cases hlarge : units infinity * den ≤ num
  · exact Nat.le_antisymm (nearest_le num den) (le_nearest_of_le hden (Nat.le_refl _) hlarge)
  · have hsucc := Nat.mul_le_mul_right den (Nat.le_of_lt (units_lt_succ infinity))
    refine nearest_eq hden hm h.rank (h.lower hm) ?_ fun _ => by decide
    rw [Nat.add_mul]
    omega

/-- What is computed for a quotient of units is the rank nearest to it. -/
theorem isNearest_nearest (num : Nat) {den : Nat} (hden : 0 < den) :
    IsNearest (num / (den * unit)) (nearest num den) := by
  obtain ⟨m, h⟩ := exists_halfway num den
  rw [h.nearest hden]
  have hscale : (0 : ℚ) < den * unit := mul_pos (by exact_mod_cast hden) unit_pos_rat
  have hsum : ∀ j k : Nat, absolute j + absolute k =
      ((units j + units k) * den : Nat) / (den * unit) := by
    intro j k
    have hden' : (den : ℚ) ≠ 0 := by exact_mod_cast hden.ne'
    have hunit := unit_pos_rat.ne'
    unfold absolute
    push_cast
    field_simp
  have hdouble : 2 * ((num : ℚ) / (den * unit)) = (2 * num : Nat) / (den * unit) := by
    push_cast
    ring
  have hle : ∀ a b : Nat, (a : ℚ) / (den * unit) ≤ b / (den * unit) ↔ a ≤ b := fun a b => by
    rw [div_le_div_iff_of_pos_right hscale, Nat.cast_le]
  have heq : ∀ a b : Nat, (a : ℚ) / (den * unit) = b / (den * unit) ↔ a = b := fun a b => by
    rw [div_left_inj' hscale.ne', Nat.cast_inj]
  refine .of_halfway h.rank ?_ ?_ ?_ <;> simp only [hsum, hdouble, hle, heq]
  · exact h.lower
  · exact h.upper
  · exact h.even

end Binary64

/-! ## Decimals -/

namespace Decimal

/-- The number a decimal stands for. -/
def value (d : Decimal) : ℚ := d.digits * 10 ^ d.exponent

theorem value_eq (d : Decimal) : d.value =
    ((d.digits * 10 ^ d.exponent.toNat * Binary64.unit : Nat) : ℚ) /
      ((10 ^ (-d.exponent).toNat : Nat) * Binary64.unit) := by
  have hunit := Binary64.unit_pos_rat.ne'
  have hpow : (10 : ℚ) ^ d.exponent = 10 ^ d.exponent.toNat / 10 ^ (-d.exponent).toNat := by
    rw [← zpow_natCast, ← zpow_natCast, ← zpow_sub₀ (by norm_num)]
    congr 1
    omega
  unfold value
  rw [hpow]
  push_cast
  field_simp

theorem units_infinity_le : Binary64.units Binary64.infinity ≤ 10 ^ 310 * Binary64.unit := by
  decide +kernel

/-- What the reader takes for too small is a quotient far below one. -/
theorem mul_two_pow_lt_ten_pow {digits k n : Nat} (h : digits.log2 + 1 + k ≤ 3 * n) :
    digits * 2 ^ k < 10 ^ n :=
  calc digits * 2 ^ k < 2 ^ (digits.log2 + 1) * 2 ^ k :=
        Nat.mul_lt_mul_of_pos_right Nat.lt_log2_self (Nat.two_pow_pos k)
    _ = 2 ^ (digits.log2 + 1 + k) := (Nat.pow_add ..).symm
    _ ≤ 2 ^ (3 * n) := Nat.pow_le_pow_right (by decide) h
    _ = 8 ^ n := Nat.pow_mul 2 3 n
    _ ≤ 10 ^ n := Nat.pow_le_pow_left (by decide) n

/-- The guards of the reader decide what rounding would. -/
theorem toBinary64_eq (d : Decimal) (negative : Bool) : d.toBinary64 negative =
    .ofUnits negative (d.digits * 10 ^ d.exponent.toNat * Binary64.unit)
      (10 ^ (-d.exponent).toNat) := by
  have hden : 0 < 10 ^ (-d.exponent).toNat := Nat.pow_pos (by decide)
  have hguard : ∀ m (hm : m < 2048 * binade),
      Binary64.nearest (d.digits * 10 ^ d.exponent.toNat * Binary64.unit)
        (10 ^ (-d.exponent).toNat) = m →
      (⟨negative, m, hm⟩ : Binary64) = .ofUnits negative
        (d.digits * 10 ^ d.exponent.toNat * Binary64.unit) (10 ^ (-d.exponent).toNat) := by
    rintro _ _ rfl
    rfl
  unfold toBinary64
  split
  · rename_i hzero
    refine hguard 0 _ (Binary64.nearest_eq_zero hden ?_)
    rw [hzero, Nat.zero_mul, Nat.zero_mul]
    exact Nat.zero_le _
  split
  · rename_i hdigits hlarge
    refine hguard Binary64.infinity _ (Nat.le_antisymm (Binary64.nearest_le _ _)
      (Binary64.le_nearest_of_le hden (Nat.le_refl _) ?_))
    have hwhole : (-d.exponent).toNat = 0 := by omega
    have hpow : 10 ^ 310 ≤ 10 ^ d.exponent.toNat := by
      gcongr
      · decide
      · omega
    rw [hwhole, Nat.pow_zero, Nat.mul_one]
    calc Binary64.units Binary64.infinity ≤ 10 ^ 310 * Binary64.unit := units_infinity_le
      _ ≤ 10 ^ d.exponent.toNat * Binary64.unit := Nat.mul_le_mul_right _ hpow
      _ ≤ d.digits * 10 ^ d.exponent.toNat * Binary64.unit :=
          Nat.mul_le_mul_right _ (Nat.le_mul_of_pos_left _ (Nat.pos_of_ne_zero hdigits))
  split
  · rename_i hsmall
    refine hguard 0 _ (Binary64.nearest_eq_zero hden ?_)
    have hfraction : d.exponent.toNat = 0 := by omega
    rw [hfraction, Nat.pow_zero, Nat.mul_one]
    calc 2 * (d.digits * Binary64.unit) = d.digits * (2 * Binary64.unit) := Nat.mul_left_comm ..
      _ ≤ d.digits * 2 ^ 1100 := Nat.mul_le_mul_left _ (by decide +kernel)
      _ ≤ 10 ^ (-d.exponent).toNat := Nat.le_of_lt (mul_two_pow_lt_ten_pow (by omega))
  · rfl

theorem isNearest_toBinary64 (d : Decimal) (negative : Bool) :
    Binary64.IsNearest d.value (d.toBinary64 negative).magnitude := by
  rw [value_eq, toBinary64_eq]
  exact Binary64.isNearest_nearest _ (Nat.pow_pos (by decide))

end Decimal

end SceneScript
