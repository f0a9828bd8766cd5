import SceneScript.Proofs.Number.Overflow
import SceneScript.Proofs.Number.PlainText
import SceneScript.Proofs.Script.Literals

/-! Every finite number that is written can be read again. Its text is read for the digits and the
power of ten it was written from, or for no power above one, and in both cases what the reader
computes stays finite. -/

namespace SceneScript

open Source Scaled

/-! ## Digits that fit -/

theorem natOfDigits_lt {ds : List Char} (hd : ∀ c ∈ ds, c.isDigit = true) :
    natOfDigits ds < 10 ^ ds.length := by
  induction ds with
  | nil => exact Nat.one_pos
  | cons c ds ih =>
    have hc := hd c List.mem_cons_self
    have hrest := ih fun x hx => hd x (List.mem_cons_of_mem _ hx)
    have hdigit : natOfDigits [c] ≤ 9 := by
      simp only [Char.isDigit, Bool.and_eq_true, decide_eq_true_eq, ge_iff_le,
        UInt32.le_iff_toNat_le] at hc
      change 10 * 0 + (c.toNat - '0'.toNat) ≤ 9
      change '0'.toNat ≤ c.toNat ∧ c.toNat ≤ '9'.toNat at hc
      have hnine : '9'.toNat = '0'.toNat + 9 := rfl
      omega
    have happend := natOfDigits_append [c] ds
    rw [List.cons_append, List.nil_append] at happend
    rw [happend, List.length_cons, Nat.pow_succ]
    have hmul := Nat.mul_le_mul_left (10 ^ ds.length) hdigit
    omega

/-- Digits never make a number smaller. -/
theorem le_ofDigitChars (ds : List Char) (n : Nat) : n ≤ Nat.ofDigitChars 10 ds n := by
  rw [Nat.ofDigitChars_eq_ofDigitChars_zero]
  exact Nat.le_trans (Nat.le_mul_of_pos_left n (Nat.pow_pos (by omega))) (Nat.le_add_right ..)

namespace Scaled

variable {ds : List Char} {tail : Source} (negative : Bool)

theorem digits_fit (hd : ∀ c ∈ ds, c.isDigit = true) {significand : Nat} (count : Nat)
    (hfit : Nat.ofDigitChars 10 ds significand ≤ maxSignificand) (ht : NoDigit tail) :
    digits (ofChars ds ++ tail) significand count =
      (Nat.ofDigitChars 10 ds significand, count + ds.length, tail) := by
  induction ds generalizing significand count with
  | nil =>
    cases tail with
    | nil => rfl
    | cons s src => simp [digits, ht s (by simp), Nat.ofDigitChars_nil]
  | cons c ds ih =>
    have hc := digit?_of_isDigit (hd c List.mem_cons_self)
    rw [Nat.ofDigitChars_cons, Nat.mul_comm 10] at hfit ⊢
    have hnext := Nat.le_trans (le_ofDigitChars ds _) hfit
    have hrest := ih (fun x hx => hd x (List.mem_cons_of_mem _ hx)) (count + 1) hfit
    simp only [ofChars, List.map_cons, List.cons_append, digits, hc, if_pos hnext] at hrest ⊢
    rw [hrest, List.length_cons, Nat.add_right_comm, Nat.add_assoc]

theorem exponentDigits_fit (hd : ∀ c ∈ ds, c.isDigit = true) {e : Nat}
    (hfit : Nat.ofDigitChars 10 ds e ≤ maxExponent) :
    exponentDigits (ofChars ds) e = (some (Nat.ofDigitChars 10 ds e), []) := by
  induction ds generalizing e with
  | nil => rfl
  | cons c ds ih =>
    have hc := digit?_of_isDigit (hd c List.mem_cons_self)
    rw [Nat.ofDigitChars_cons, Nat.mul_comm 10] at hfit ⊢
    have hnext := Nat.le_trans (le_ofDigitChars ds _) hfit
    have hrest := ih (fun x hx => hd x (List.mem_cons_of_mem _ hx)) hfit
    simp only [ofChars, List.map_cons, exponentDigits, hc, if_pos hnext] at hrest ⊢
    exact hrest

/-! ## The parts of a number -/

theorem readUnsigned_whole (hw : IsDigits ds) (hlead : ds.head? = some '0' → ds.length = 1)
    (hfit : natOfDigits ds ≤ maxSignificand) (ht : NoDigit tail) :
    readUnsigned negative (ofChars ds ++ tail) =
      readBehindWhole negative (natOfDigits ds) 0 tail := by
  obtain ⟨hne, hall⟩ := hw
  have hdigits := digits_fit hall 0 hfit ht
  obtain ⟨d, ds, rfl⟩ := List.exists_cons_of_ne_nil hne
  have hdigit : (Symbol.char d).digit?.isNone = false := by
    rw [digit?_of_isDigit (hall d List.mem_cons_self)]
    rfl
  have hcount := countDigits_append (fun c hc => hall c (List.mem_cons_of_mem _ hc)) ht
  have hz : ¬(Symbol.char d = .char '0' ∧ countDigits (ofChars ds ++ tail) ≠ 0) := by
    rintro ⟨hd, hmore⟩
    cases hd
    rw [hcount] at hmore
    have hone := hlead rfl
    rw [List.length_cons] at hone
    omega
  have htail : countDigits tail = 0 := @countDigits_append [] (by simp) tail ht
  have hdrop : dropDigits tail = tail := @dropDigits_append [] (by simp) tail ht
  have hread := readUnsigned_cons negative hdigit hz hdigits
  rw [htail, hdrop] at hread
  exact hread

theorem readFraction_fit {s : Scaled} (hd : IsDigits ds)
    (hfit : Nat.ofDigitChars 10 ds s.significand ≤ maxSignificand) (ht : NoDigit tail) :
    readFraction negative s (ofChars ds ++ tail) =
      readEnd negative ⟨Nat.ofDigitChars 10 ds s.significand, s.exponent - ds.length⟩ tail := by
  obtain ⟨hne, hall⟩ := hd
  have hdigits := digits_fit hall 0 hfit ht
  have hdrop : dropDigits tail = tail := @dropDigits_append [] (by simp) tail ht
  obtain ⟨d, ds, rfl⟩ := List.exists_cons_of_ne_nil hne
  have hdigit := digit?_of_isDigit (hall d List.mem_cons_self)
  simp only [ofChars, List.map_cons, List.cons_append] at hdigits ⊢
  simp only [readFraction, hdigit, hdigits, Option.isNone_some, Bool.false_eq_true, if_false, hdrop]
  rw [Nat.zero_add]

theorem readExponent_fit {s : Scaled} {e : Int} (he : e.natAbs ≤ maxExponent) :
    readExponent negative s
        (ofChars ((if e < 0 then '-' else '+') :: Nat.toDigits 10 e.natAbs)) =
      (toReal negative ⟨s.significand, clamp (s.exponent + e)⟩).map (·, []) := by
  obtain ⟨hne, hall⟩ := isDigits_toDigits e.natAbs
  have hvalue := natOfDigits_toDigits e.natAbs
  unfold natOfDigits at hvalue
  have hread := exponentDigits_fit (e := 0) hall (hvalue.symm ▸ he)
  rw [hvalue] at hread
  generalize Nat.toDigits 10 e.natAbs = ds at hne hall hread
  obtain ⟨d, ds, rfl⟩ := List.exists_cons_of_ne_nil hne
  have hdigit := digit?_of_isDigit (hall d List.mem_cons_self)
  simp only [ofChars, List.map_cons] at hread ⊢
  split
  · have hneg : -(e.natAbs : Int) = e := by omega
    simp only [readExponent, hdigit, hread, Option.isNone_some, Bool.false_eq_true, if_false,
      if_true, hneg]
    cases toReal negative _ <;> rfl
  · have hpos : (e.natAbs : Int) = e := by omega
    simp only [readExponent, hdigit, hread, Option.isNone_some, Bool.false_eq_true, if_false, hpos]
    cases toReal negative _ <;> rfl

/-! ## What is computed -/

theorem exists_toReal {s : Scaled} (he : s.exponent < 309)
    (h : 0 ≤ s.exponent → (product s.significand s.exponent.toNat).isFinite = true) :
    ∃ n, toReal negative s = .ok n := by
  suffices hsome : ∃ x, s.toBinary64? = some x by
    obtain ⟨x, hx⟩ := hsome
    exact ⟨.real (x.withSign negative), by rw [toReal, hx]⟩
  unfold toBinary64?
  dsimp only
  split
  · rename_i hpos
    rw [if_pos (by omega)]
    exact ⟨_, if_pos (h hpos)⟩
  · split
    · exact ⟨_, rfl⟩
    · exact ⟨_, rfl⟩

theorem isFinite_product_one : (product maxSignificand 0).isFinite = true := by decide +kernel

/-- Without a positive power of ten nothing is too large. -/
theorem exists_toReal_of_le {s : Scaled} (hs : s.significand ≤ maxSignificand)
    (he : s.exponent ≤ 0) : ∃ n, toReal negative s = .ok n := by
  refine exists_toReal negative (by omega) fun hpos => ?_
  have hzero : s.exponent.toNat = 0 := by omega
  rw [hzero]
  exact isFinite_product_mono hs (Nat.le_refl 0) (by omega) isFinite_product_one

theorem exists_readFraction {s : Scaled} (hd : IsDigits ds)
    (hs : s.significand ≤ maxSignificand) (he : s.exponent ≤ 0) :
    ∃ r, readFraction negative s (ofChars ds) = .ok r := by
  obtain ⟨hne, hall⟩ := hd
  obtain ⟨significand, count, left, hleft, hread⟩ := digits_append ds hall s.significand 0
  have hdigits : digits (ofChars ds) s.significand 0 = (significand, count, ofChars left) := by
    simpa only [List.append_nil] using hread [] ends_nil.noDigit
  have hdrop : dropDigits (left.map .char) = [] := by
    simpa only [List.append_nil] using dropDigits_append hleft ends_nil.noDigit
  have hfit : (digits (ofChars ds) s.significand 0).1 ≤ maxSignificand := digits_le hs
  rw [hdigits] at hfit
  obtain ⟨n, hn⟩ : ∃ n, toReal negative ⟨significand, s.exponent - count⟩ = .ok n :=
    exists_toReal_of_le negative hfit (by dsimp only; omega)
  obtain ⟨d, ds, rfl⟩ := List.exists_cons_of_ne_nil hne
  have hdigit := digit?_of_isDigit (hall d List.mem_cons_self)
  refine ⟨(n, []), ?_⟩
  simp only [ofChars, List.map_cons] at hdigits ⊢
  simp only [readFraction, hdigit, hdigits, Option.isNone_some, Bool.false_eq_true, if_false, hdrop,
    readEnd, hn]
  rfl

/-- A number without an exponent is not too large if its whole digits fit. -/
theorem exists_readUnsigned_pointed {whole fraction : List Char} (hw : IsDigits whole)
    (hlead : whole.head? = some '0' → whole.length = 1) (hlength : whole.length ≤ 19)
    (hf : IsDigits fraction) :
    ∃ r, readUnsigned negative (ofChars (whole ++ '.' :: fraction)) = .ok r := by
  have hfit : natOfDigits whole ≤ maxSignificand := by
    have hlt := natOfDigits_lt hw.2
    have hpow : 10 ^ whole.length ≤ 10 ^ 19 := Nat.pow_le_pow_right (by omega) hlength
    have hmax : 10 ^ 19 ≤ maxSignificand := by decide
    omega
  have hpoint : NoDigit (ofChars ('.' :: fraction)) := by simp [NoDigit, Symbol.digit?]
  obtain ⟨r, hr⟩ := exists_readFraction negative
    (s := ⟨natOfDigits whole, 0⟩) hf hfit (Int.le_refl 0)
  exact ⟨r, by rw [ofChars_append, readUnsigned_whole negative hw hlead hfit hpoint]; exact hr⟩

/-- A number with one digit in front and an exponent is read for the digits and the power of ten it
was written from. -/
theorem readUnsigned_scientific {d : Decimal} (hfit : d.digits ≤ maxSignificand)
    (hlow : -1075 ≤ d.exponent) (hhigh : d.exponent < 309) :
    readUnsigned negative (ofChars d.scientific) =
      (toReal negative ⟨d.digits, d.exponent⟩).map (·, []) := by
  have hdigits := isDigits_toDigits d.digits
  have hvalue := natOfDigits_toDigits d.digits
  have hlength : (Nat.toDigits 10 d.digits).length ≤ 20 :=
    (Nat.length_toDigits_le_iff (by omega) (by omega)).mpr
      (Nat.lt_of_le_of_lt hfit (by decide))
  unfold Decimal.scientific Decimal.point
  generalize Nat.toDigits 10 d.digits = ds at hdigits hvalue hlength
  obtain ⟨c, ds, rfl⟩ := List.exists_cons_of_ne_nil hdigits.1
  have hc : IsDigits [c] :=
    ⟨by simp, List.forall_mem_singleton.mpr (hdigits.2 c List.mem_cons_self)⟩
  have hone : natOfDigits [c] ≤ maxSignificand := by
    rw [← hvalue] at hfit
    exact Nat.le_trans (le_ofDigitChars ds _) hfit
  have hlead : [c].head? = some '0' → [c].length = 1 := fun _ => rfl
  obtain ⟨e, he⟩ : ∃ e : Int, e = ((c :: ds).length : Int) + d.exponent - 1 := ⟨_, rfl⟩
  have hsmall : e.natAbs ≤ maxExponent := by
    have hmax : 2000 ≤ maxExponent := by decide
    omega
  have hclamp : clamp (-(ds.length : Int) + e) = d.exponent := by
    rw [List.length_cons] at he
    have hmax : 2000 ≤ maxExponent := by decide
    unfold clamp
    omega
  have hexponent : ∀ tail, NoDigit (ofChars ('e' :: tail)) := by simp [NoDigit, Symbol.digit?]
  dsimp only
  rw [← he]
  cases ds with
  | nil =>
    have hread := readUnsigned_whole negative hc hlead hone
      (hexponent ((if e < 0 then '-' else '+') :: Nat.toDigits 10 e.natAbs))
    rw [← ofChars_append] at hread
    have hzero : ((0 : Nat) : Int) + e = -((0 : Nat) : Int) + e := by omega
    rw [List.length_nil, ← hzero] at hclamp
    refine hread.trans ((readExponent_fit negative hsmall).trans ?_)
    dsimp only
    rw [hvalue, hclamp]
  | cons c' ds =>
    have hds : IsDigits (c' :: ds) :=
      ⟨by simp, fun x hx => hdigits.2 x (List.mem_cons_of_mem _ hx)⟩
    have hpoint : NoDigit (ofChars ('.' :: (c' :: ds ++
        'e' :: (if e < 0 then '-' else '+') :: Nat.toDigits 10 e.natAbs))) := by
      simp [NoDigit, Symbol.digit?]
    have hall : Nat.ofDigitChars 10 (c' :: ds) (natOfDigits [c]) = d.digits := hvalue
    have hread := readUnsigned_whole negative hc hlead hone hpoint
    have hfraction := readFraction_fit negative (s := ⟨natOfDigits [c], 0⟩) hds
      (Nat.le_trans (Nat.le_of_eq hall) hfit)
      (hexponent ((if e < 0 then '-' else '+') :: Nat.toDigits 10 e.natAbs))
    rw [← ofChars_append] at hread hfraction
    refine hread.trans (hfraction.trans ((readExponent_fit negative hsmall).trans ?_))
    have hzero : 0 - ((c' :: ds).length : Int) + e = -((c' :: ds).length : Int) + e := by omega
    dsimp only
    rw [hall, hzero, hclamp]

end Scaled

/-! ## Written numbers -/

/-- Only zero is written with a zero in front. -/
theorem head_toDigits {n : Nat} (h : n ≠ 0) : (Nat.toDigits 10 n).head? ≠ some '0' := by
  induction n using Nat.strongRecOn with
  | ind n ih =>
    rw [Nat.toDigits_eq_if (by omega)]
    split
    · rename_i hlt
      have hdigit : ∀ k < 10, k ≠ 0 → Nat.digitChar k ≠ '0' := by decide
      simpa using hdigit n hlt h
    · have hrest := ih (n / 10) (by omega) (by omega)
      rw [List.head?_append]
      cases hhead : (Nat.toDigits 10 (n / 10)).head? with
      | none => exact absurd (List.head?_eq_none_iff.mp hhead) Nat.toDigits_ne_nil
      | some c =>
        rw [hhead] at hrest
        exact hrest

namespace Decimal

variable (negative : Bool)

theorem exists_readUnsigned_positional {d : Decimal} (hd : d.digits ≠ 0) (hpoint : d.point ≤ 16) :
    ∃ r, readUnsigned negative (ofChars (d.positional ['.', '0'])) = .ok r := by
  have hds := isDigits_toDigits d.digits
  have hhead := head_toDigits hd
  unfold positional
  unfold point at hpoint ⊢
  dsimp only
  generalize Nat.toDigits 10 d.digits = ds at hds hhead hpoint ⊢
  have hlen : 0 < ds.length := List.length_pos_iff.mpr hds.1
  split
  · -- zeros between the point and the digits
    have hzero : IsDigits ['0'] := ⟨by simp, List.forall_mem_singleton.mpr rfl⟩
    have hfraction : IsDigits (zeros (-(ds.length + d.exponent)).toNat ++ ds) := by
      refine ⟨by simp [hds.1], fun c hc => ?_⟩
      rcases List.mem_append.mp hc with hc | hc
      · exact isDigit_zeros c hc
      · exact hds.2 c hc
    exact exists_readUnsigned_pointed negative hzero (fun _ => rfl) (by simp) hfraction
  rename_i hbelow
  split
  · -- zeros behind the digits
    have hwhole := hds.append_zeros ((ds.length + d.exponent).toNat - ds.length)
    have hpointed : IsDigits ['0'] := ⟨by simp, List.forall_mem_singleton.mpr rfl⟩
    refine exists_readUnsigned_pointed negative hwhole (fun hzero => absurd ?_ hhead) ?_ hpointed
    · rw [List.head?_append_of_ne_nil _ hds.1] at hzero
      exact hzero
    · rw [zeros, List.length_append, List.length_replicate]
      omega
  · -- the point among the digits
    have hwhole : IsDigits (ds.take (ds.length + d.exponent).toNat) := by
      refine ⟨?_, fun c hc => hds.2 c (List.mem_of_mem_take hc)⟩
      rw [Ne, List.take_eq_nil_iff, not_or]
      exact ⟨by omega, hds.1⟩
    have hfraction : IsDigits (ds.drop (ds.length + d.exponent).toNat) := by
      refine ⟨?_, fun c hc => hds.2 c (List.mem_of_mem_drop hc)⟩
      rw [Ne, List.drop_eq_nil_iff]
      omega
    refine exists_readUnsigned_pointed negative hwhole (fun hzero => absurd ?_ hhead) ?_ hfraction
    · rw [List.head?_take, if_neg (by omega)] at hzero
      exact hzero
    · rw [List.length_take]
      omega

theorem exists_readUnsigned_scientific {d : Decimal} (hfit : d.digits ≤ maxSignificand)
    (hlow : -1075 ≤ d.exponent) (hhigh : d.exponent < 309)
    (h : 0 ≤ d.exponent → (product d.digits d.exponent.toNat).isFinite = true) :
    ∃ r, readUnsigned negative (ofChars d.scientific) = .ok r := by
  obtain ⟨n, hn⟩ := exists_toReal negative (s := ⟨d.digits, d.exponent⟩) hhigh h
  exact ⟨(n, []), by rw [readUnsigned_scientific negative hfit hlow hhigh, hn]; rfl⟩

end Decimal

namespace Binary64

theorem read_signed {negative : Bool} {cs : List Char}
    (h : ∃ r, readUnsigned negative (ofChars cs) = .ok r) :
    ∃ r, Scaled.read (ofChars (signed negative cs)) = .ok r := by
  cases negative with
  | true => exact h
  | false =>
    obtain ⟨r, hr⟩ := h
    refine ⟨r, ?_⟩
    change Scaled.read (ofChars cs) = .ok r
    unfold Scaled.read
    split
    · rename_i heq
      rw [heq] at hr
      cases hr
    · exact hr

theorem exists_read_documentText {x : Binary64} (h : x.isFinite = true) :
    ∃ r, Scaled.read (ofChars x.documentText.toList) = .ok r := by
  have hfinite : x.magnitude < infinity := of_decide_eq_true h
  unfold documentText
  dsimp only
  rw [String.toList_ofList]
  by_cases hzero : x.magnitude = 0
  · have hdigit : IsDigits ['0'] := ⟨by simp, List.forall_mem_singleton.mpr rfl⟩
    have hread := exists_readUnsigned_pointed x.negative hdigit (fun _ => rfl) (by simp) hdigit
    rw [hzero]
    exact read_signed hread
  · have hpos : 0 < x.magnitude := Nat.pos_of_ne_zero hzero
    have hreads := Decimal.readsTo_shortest .even hpos
    have hdigits := hreads.digits_ne_zero hpos
    have hhigh := hreads.exponent_lt hdigits hfinite
    have hlow := hreads.fine
    have hfit : (Decimal.shortest .even x.magnitude).digits ≤ maxSignificand :=
      Nat.le_trans (Decimal.digits_shortest_le .even hpos) (by decide)
    have hproduct := isFinite_product_shortest hpos hfinite
    generalize Decimal.shortest .even x.magnitude = d at hdigits hhigh hlow hfit hproduct
    split
    · rename_i hpoint
      exact read_signed (Decimal.exists_readUnsigned_positional _ hdigits hpoint.2)
    · exact read_signed (Decimal.exists_readUnsigned_scientific _ hfit hlow hhigh hproduct)

/-- A finite number is written as a number. -/
theorem exists_readBack {x : Binary64} (h : x.isFinite = true) :
    ∃ n, (Numeral.real x).readBack? = some (.number n) := by
  obtain ⟨⟨n, rest⟩, hread⟩ := exists_read_documentText h
  obtain ⟨r, hr⟩ := Scaled.read_isNumber (isNumber_documentText x)
  have hwhole := hr [] ends_nil
  rw [List.append_nil, hread] at hwhole
  have htext := Json.ofText_number (isNumber_documentText x) hr
  cases r with
  | error e => cases hwhole
  | ok m =>
    refine ⟨m, ?_⟩
    simp [Numeral.readBack?, Numeral.text, h, htext, Except.map, Except.toOption]

theorem exists_reread_of_finite {x : Binary64} (h : x.isFinite = true) :
    ∃ y, x.reread? = some y := by
  obtain ⟨n, hn⟩ := exists_readBack h
  exact ⟨n.toBinary64, by rw [reread?, hn]⟩

end Binary64

end SceneScript
