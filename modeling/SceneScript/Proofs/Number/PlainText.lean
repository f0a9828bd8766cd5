import SceneScript.Proofs.Number.Shortest
import SceneScript.Proofs.Number.Typed

/-! The plain text of a number, read as it would be typed. Its digits stand at the point as they
were written, so that it is a text for the number; a finite number is read back, and the text of
one that is not finite is read as no number at all. -/

namespace SceneScript

/-! ## Values of digits -/

theorem natOfDigits_append (cs ds : List Char) :
    natOfDigits (cs ++ ds) = 10 ^ ds.length * natOfDigits cs + natOfDigits ds := by
  unfold natOfDigits
  rw [Nat.ofDigitChars_append, Nat.ofDigitChars_eq_ofDigitChars_zero]

theorem natOfDigits_zeros (n : Nat) : natOfDigits (Decimal.zeros n) = 0 := by
  induction n with
  | zero => rfl
  | succ n ih => exact ih

theorem natOfDigits_toDigits (n : Nat) : natOfDigits (Nat.toDigits 10 n) = n :=
  Nat.ofDigitChars_toDigits (by decide) (by decide)

theorem isDigit_zeros {n : Nat} : ∀ c ∈ Decimal.zeros n, c.isDigit = true := by
  intro c hc
  rw [List.eq_of_mem_replicate hc]
  rfl

/-! ## Digits at the point -/

namespace Decimal

theorem Typed.of_digits {ds : List Char} (h : IsDigits ds) : Typed ds ⟨natOfDigits ds, 0⟩ := by
  have htyped := Typed.whole h .none
  rwa [List.append_nil] at htyped

theorem Typed.of_point {whole fraction : List Char} (h : IsDigits (whole ++ fraction)) :
    Typed (whole ++ '.' :: fraction) ⟨natOfDigits (whole ++ fraction), -fraction.length⟩ := by
  have htyped := Typed.pointed h .none
  rwa [List.append_nil, Int.zero_sub] at htyped

/-- The decimal that a positional layout stands for: zeros behind the digits are digits too. -/
def written (d : Decimal) : Decimal :=
  if 0 ≤ d.exponent then ⟨d.digits * 10 ^ d.exponent.toNat, 0⟩ else d

theorem typed_positional (d : Decimal) : d.written.Typed (d.positional []) := by
  obtain ⟨digits, exponent⟩ := d
  have hdigits := isDigits_toDigits digits
  have hlen : 0 < (Nat.toDigits 10 digits).length := List.length_pos_iff.mpr hdigits.1
  have hvalue := natOfDigits_toDigits digits
  unfold positional written point
  dsimp only
  generalize Nat.toDigits 10 digits = ds at hdigits hlen hvalue ⊢
  by_cases hbelow : ds.length + exponent ≤ 0
  · -- zeros between the point and the digits
    have hall : IsDigits (['0'] ++ (zeros (-(ds.length + exponent)).toNat ++ ds)) :=
      ⟨List.cons_ne_nil _ _, List.forall_mem_append.mpr
        ⟨by simp, List.forall_mem_append.mpr ⟨isDigit_zeros, hdigits.2⟩⟩⟩
    have htyped := Typed.of_point hall
    have hlead : natOfDigits ['0'] = 0 := rfl
    have hlength : (-((zeros (-(ds.length + exponent)).toNat ++ ds).length : Int)) = exponent := by
      simp only [zeros, List.length_append, List.length_replicate]
      omega
    rw [hlength, natOfDigits_append, natOfDigits_append, natOfDigits_zeros, hvalue, hlead,
      Nat.mul_zero, Nat.mul_zero, Nat.zero_add, Nat.zero_add] at htyped
    have hexponent : ¬0 ≤ exponent := by omega
    rw [if_neg hexponent, if_pos hbelow]
    exact htyped
  by_cases hbehind : 0 ≤ exponent
  · -- zeros behind the digits
    have htyped := Typed.of_digits (hdigits.append_zeros exponent.toNat)
    have hzeros : (ds.length + exponent).toNat - ds.length = exponent.toNat := by omega
    rw [natOfDigits_append, natOfDigits_zeros, hvalue, zeros, List.length_replicate, Nat.mul_comm,
      Nat.add_zero] at htyped
    rw [if_pos hbehind, if_neg hbelow, if_pos (by omega), hzeros, List.append_nil]
    exact htyped
  · -- the point among the digits
    have hall := hdigits
    rw [← List.take_append_drop (ds.length + exponent).toNat ds] at hall
    have htyped := Typed.of_point hall
    have hlength : (-((ds.drop (ds.length + exponent).toNat).length : Int)) = exponent := by
      rw [List.length_drop]
      omega
    rw [List.take_append_drop, hvalue, hlength] at htyped
    rw [if_neg hbehind, if_neg hbelow, if_neg (by omega)]
    exact htyped

end Decimal

/-! ## Reading plain texts -/

theorem Decimal.ReadsTo.written {d : Decimal} {m : Nat} (h : d.ReadsTo m) :
    d.written.ReadsTo m := by
  unfold Decimal.written
  by_cases hexponent : 0 ≤ d.exponent
  · rw [if_pos hexponent]
    have hfine : d.fineExponent =
        d.exponent.toNat + fineExponent ⟨d.digits * 10 ^ d.exponent.toNat, 0⟩ := by
      unfold fineExponent
      dsimp only
      omega
    have hnear := h.near
    rw [hfine, Nat.pow_add, ← Nat.mul_assoc] at hnear
    have hlow : (-1075 : Int) ≤ 0 := by decide
    exact ⟨hlow, hnear⟩
  · rw [if_neg hexponent]
    exact h

theorem toBinary64_shortest {x : Binary64} (h : x.isFinite = true) (tie : Tie) :
    (Decimal.shortest tie x.magnitude).written.toBinary64 x.negative = x := by
  have hfinite : x.magnitude < Binary64.infinity := of_decide_eq_true h
  by_cases hzero : x.magnitude = 0
  · obtain ⟨negative, magnitude, bounded⟩ := x
    subst hzero
    rfl
  · have hpos := Nat.pos_of_ne_zero hzero
    exact (Decimal.readsTo_shortest tie hpos).written.toBinary64 hpos hfinite x.negative

theorem numberText_plainText {x : Binary64} (h : x.isFinite = true) :
    NumberText x.plainText x := by
  have hfinite : x.magnitude < Binary64.infinity := of_decide_eq_true h
  have hnan : x.isNaN = false := decide_eq_false (Nat.not_lt.mpr (Nat.le_of_lt hfinite))
  have hnearest := Decimal.toBinary64_eq_iff.mp (toBinary64_shortest h .up)
  have htyped := (Decimal.shortest .up x.magnitude).typed_positional
  obtain ⟨sign, hsign, hsigned⟩ : ∃ sign, TypedSign sign x.negative ∧
      x.plainText.toList = sign ++ (Decimal.shortest .up x.magnitude).positional [] := by
    unfold Binary64.plainText Binary64.signed
    rw [hnan, h, String.toList_ofList]
    cases x.negative with
    | false => exact ⟨[], .none, rfl⟩
    | true => exact ⟨['-'], .minus, rfl⟩
  refine ⟨⟨[], sign, _, [], _, ?_, nofun, nofun, hsign, htyped, hnearest⟩, h⟩
  rw [hsigned, List.append_nil, List.nil_append]

/-- A finite number is read back from its plain text. -/
theorem parseNumber_plainText {x : Binary64} (h : x.isFinite = true) :
    parseNumber x.plainText = .ok x :=
  parseNumber_eq_ok_iff.mpr (numberText_plainText h)

/-- The plain text of what is not finite names it, and is not taken for a number. -/
theorem ofChars?_plainText_infinite {x : Binary64} (h : x.isFinite = false) :
    ∃ y : Binary64, Binary64.ofChars? (Text.trim x.plainText.toList) = some y ∧
      y.isFinite = false := by
  unfold Binary64.plainText
  rw [h, String.toList_ofList]
  simp only [Bool.false_eq_true, if_false]
  cases x.isNaN with
  | true =>
    simp only [if_true]
    exact ⟨.notANumber false, by decide, rfl⟩
  | false =>
    cases x.negative with
    | true => exact ⟨.infinite true, by decide, by decide⟩
    | false => exact ⟨.infinite false, by decide, by decide⟩

/-- Whatever is read from the plain text of a number is the number. -/
theorem eq_of_parseNumber_plainText {x v : Binary64} (h : parseNumber x.plainText = .ok v) :
    v = x := by
  cases hfinite : x.isFinite with
  | true =>
    rw [parseNumber_plainText hfinite] at h
    cases h
    rfl
  | false =>
    obtain ⟨y, hy, hnot⟩ := ofChars?_plainText_infinite hfinite
    unfold parseNumber at h
    rw [hy] at h
    simp [hnot] at h

end SceneScript
