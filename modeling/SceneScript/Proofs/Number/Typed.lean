import Mathlib.Data.List.TakeWhile
import SceneScript.Editor.Control
import SceneScript.Proofs.Json.Numbers
import SceneScript.Proofs.Number.Rounding

/-! Which texts are numbers. The reader of typed numbers takes a sign, digits with at most one point
and an exponent in this order, each where it belongs; the grammar says so without reading, and both
agree on every text. The other texts that are read name values that are not finite. -/

namespace SceneScript

/-! ## The grammar -/

/-- A sign, if there is one. -/
inductive TypedSign : List Char → Bool → Prop
  | none : TypedSign [] false
  | plus : TypedSign ['+'] false
  | minus : TypedSign ['-'] true

/-- A power of ten behind the digits, if there is one. -/
inductive TypedExponent : List Char → Int → Prop
  | none : TypedExponent [] 0
  | some {mark : Char} {sign ds : List Char} {negative : Bool} (hmark : mark = 'e' ∨ mark = 'E')
      (hsign : TypedSign sign negative) (hds : IsDigits ds) :
      TypedExponent (mark :: (sign ++ ds))
        (if negative then -(natOfDigits ds : Int) else natOfDigits ds)

/-- Digits with at most one point before, among or behind them, and a power of ten. -/
inductive Decimal.Typed : List Char → Decimal → Prop
  | whole {ds power : List Char} {e : Int} (hds : IsDigits ds) (hpower : TypedExponent power e) :
      Typed (ds ++ power) ⟨natOfDigits ds, e⟩
  | pointed {whole fraction power : List Char} {e : Int} (hds : IsDigits (whole ++ fraction))
      (hpower : TypedExponent power e) :
      Typed (whole ++ '.' :: (fraction ++ power))
        ⟨natOfDigits (whole ++ fraction), e - fraction.length⟩

/-- A text for a finite number: white space aside, a decimal behind a sign, of which the number is
the nearest value. -/
structure NumberText (text : String) (x : Binary64) : Prop where
  typed : ∃ front sign cs back : List Char, ∃ d : Decimal,
    text.toList = front ++ (sign ++ cs ++ back) ∧
      (∀ c ∈ front, Text.isWhiteSpace c = true) ∧ (∀ c ∈ back, Text.isWhiteSpace c = true) ∧
      TypedSign sign x.negative ∧ d.Typed cs ∧ Binary64.IsNearest d.value x.magnitude
  finite : x.isFinite = true

/-! ## Signs -/

theorem splitSign_append {sign rest : List Char} {negative : Bool} (h : TypedSign sign negative)
    (hrest : ∀ c ∈ rest.head?, c ≠ '+' ∧ c ≠ '-') :
    splitSign (sign ++ rest) = (negative, rest) := by
  cases h with
  | plus => rfl
  | minus => rfl
  | none =>
    change splitSign rest = _
    unfold splitSign
    split
    · exact absurd rfl (hrest '+' rfl).1
    · exact absurd rfl (hrest '-' rfl).2
    · rfl

theorem exists_typedSign (cs : List Char) :
    ∃ sign, TypedSign sign (splitSign cs).1 ∧ cs = sign ++ (splitSign cs).2 := by
  unfold splitSign
  split
  · exact ⟨['+'], .plus, rfl⟩
  · exact ⟨['-'], .minus, rfl⟩
  · exact ⟨[], .none, rfl⟩

theorem ne_sign_of_isDigit {c : Char} (h : c.isDigit = true) : c ≠ '+' ∧ c ≠ '-' := by
  constructor <;> rintro rfl <;> cases h

theorem IsDigits.head?_ne_sign {ds : List Char} (h : IsDigits ds) :
    ∀ c ∈ ds.head?, c ≠ '+' ∧ c ≠ '-' :=
  fun c hc => ne_sign_of_isDigit (h.2 c (List.mem_of_mem_head? hc))

/-! ## Exponents -/

theorem exponent?_cons (mark : Char) (cs : List Char) :
    exponent? (mark :: cs) =
      if (mark = 'e' ∨ mark = 'E') ∧ (splitSign cs).2 ≠ [] ∧ (splitSign cs).2.all Char.isDigit then
        some (if (splitSign cs).1 then -(natOfDigits (splitSign cs).2 : Int)
          else natOfDigits (splitSign cs).2)
      else none :=
  (ite_and ..).symm

theorem exponent?_eq_some_iff {cs : List Char} {e : Int} :
    exponent? cs = some e ↔ TypedExponent cs e := by
  constructor
  · intro h
    cases cs with
    | nil =>
      cases h
      exact .none
    | cons mark cs =>
      rw [exponent?_cons] at h
      split at h
      · rename_i hread
        cases h
        obtain ⟨sign, hsign, hcs⟩ := exists_typedSign cs
        have htyped := TypedExponent.some hread.1 hsign ⟨hread.2.1, List.all_eq_true.mp hread.2.2⟩
        rwa [← hcs] at htyped
      · cases h
  · intro h
    cases h with
    | none => rfl
    | some hmark hsign hds =>
      rw [exponent?_cons, splitSign_append hsign hds.head?_ne_sign]
      exact if_pos ⟨hmark, hds.1, List.all_eq_true.mpr hds.2⟩

theorem TypedExponent.head? {cs : List Char} {e : Int} (h : TypedExponent cs e) :
    ∀ c ∈ cs.head?, c = 'e' ∨ c = 'E' := by
  cases h with
  | none => simp
  | some hmark _ _ =>
    rintro _ ⟨⟩
    exact hmark

/-! ## Decimals -/

theorem splitDigits_append {ds rest : List Char} (hds : ∀ c ∈ ds, c.isDigit = true)
    (hrest : ∀ c ∈ rest.head?, c.isDigit = false) : splitDigits (ds ++ rest) = (ds, rest) := by
  unfold splitDigits
  rw [List.takeWhile_append_of_pos hds, List.dropWhile_append_of_pos hds]
  cases rest with
  | nil => simp
  | cons c cs => simp [hrest c rfl]

/-- The digits in front are split off. -/
theorem exists_splitDigits (cs : List Char) : ∃ ds rest, splitDigits cs = (ds, rest) ∧
    cs = ds ++ rest ∧ (∀ c ∈ ds, c.isDigit = true) :=
  ⟨_, _, rfl, List.takeWhile_append_dropWhile.symm, fun _ hc => List.mem_takeWhile_imp hc⟩

theorem TypedExponent.splitDigits {ds power : List Char} {e : Int} (h : TypedExponent power e)
    (hds : ∀ c ∈ ds, c.isDigit = true) : splitDigits (ds ++ power) = (ds, power) :=
  splitDigits_append hds fun c hc => by rcases h.head? c hc with rfl | rfl <;> rfl

namespace Decimal

theorem ofChars?_of_point {cs whole fraction rest power : List Char}
    (hwhole : splitDigits cs = (whole, '.' :: rest))
    (hfraction : splitDigits rest = (fraction, power)) :
    ofChars? cs = if whole ++ fraction = [] then none
      else (exponent? power).map fun e =>
        ⟨natOfDigits (whole ++ fraction), e - fraction.length⟩ := by
  simp only [Decimal.ofChars?, hwhole, hfraction, List.append_eq_nil_iff]

theorem ofChars?_of_no_point {cs whole rest : List Char} (hwhole : splitDigits cs = (whole, rest))
    (hrest : ∀ fraction, rest ≠ '.' :: fraction) :
    ofChars? cs = if whole = [] then none
      else (exponent? rest).map fun e => ⟨natOfDigits whole, e⟩ := by
  unfold Decimal.ofChars?
  rw [hwhole]
  dsimp only
  split
  · exact absurd rfl (hrest _)
  · simp

theorem Typed.ofChars? {cs : List Char} {d : Decimal} (h : d.Typed cs) : ofChars? cs = some d := by
  cases h with
  | @whole ds power e hds hpower =>
    have hpoint : ∀ fraction, power ≠ '.' :: fraction := by
      rintro fraction rfl
      rcases hpower.head? '.' rfl with h | h <;> cases h
    rw [ofChars?_of_no_point (hpower.splitDigits hds.2) hpoint, if_neg hds.1,
      exponent?_eq_some_iff.mpr hpower]
    rfl
  | @pointed whole fraction power e hds hpower =>
    have hwhole : ∀ c ∈ whole, c.isDigit = true := fun c hc => hds.2 c (by simp [hc])
    have hfraction : ∀ c ∈ fraction, c.isDigit = true := fun c hc => hds.2 c (by simp [hc])
    rw [ofChars?_of_point (splitDigits_append hwhole (by simp)) (hpower.splitDigits hfraction),
      if_neg hds.1, exponent?_eq_some_iff.mpr hpower]
    rfl

theorem typed_of_ofChars? {cs : List Char} {d : Decimal} (h : ofChars? cs = some d) :
    d.Typed cs := by
  obtain ⟨whole, rest, hsplit, rfl, hwhole⟩ := exists_splitDigits cs
  by_cases hpoint : ∃ fraction, rest = '.' :: fraction
  · obtain ⟨rest, rfl⟩ := hpoint
    obtain ⟨fraction, power, hsplit', rfl, hfraction⟩ := exists_splitDigits rest
    rw [ofChars?_of_point hsplit hsplit'] at h
    split at h
    · cases h
    · rename_i hne
      obtain ⟨e, he, rfl⟩ := Option.map_eq_some_iff.mp h
      exact .pointed ⟨hne, fun c hc => (List.mem_append.mp hc).elim (hwhole c) (hfraction c)⟩
        (exponent?_eq_some_iff.mp he)
  · rw [ofChars?_of_no_point hsplit (not_exists.mp hpoint)] at h
    split at h
    · cases h
    · rename_i hne
      obtain ⟨e, he, rfl⟩ := Option.map_eq_some_iff.mp h
      exact .whole ⟨hne, hwhole⟩ (exponent?_eq_some_iff.mp he)

/-- A decimal begins with a digit or with its point. -/
theorem Typed.head {cs : List Char} {d : Decimal} (h : d.Typed cs) :
    ∃ c rest, cs = c :: rest ∧ (c.isDigit = true ∨ c = '.') := by
  cases h with
  | @whole ds power e hds hpower =>
    obtain ⟨c, rest, rfl⟩ := List.exists_cons_of_ne_nil hds.1
    exact ⟨c, rest ++ power, rfl, .inl (hds.2 c (by simp))⟩
  | @pointed whole fraction power e hds hpower =>
    cases whole with
    | nil => exact ⟨'.', fraction ++ power, rfl, .inr rfl⟩
    | cons c rest => exact ⟨c, _, rfl, .inl (hds.2 c (by simp))⟩

theorem negative_toBinary64 (d : Decimal) (negative : Bool) :
    (d.toBinary64 negative).negative = negative := by
  rw [toBinary64_eq]
  rfl

/-- Which value is nearest decides what a decimal is read as. -/
theorem toBinary64_eq_iff {d : Decimal} {x : Binary64} :
    d.toBinary64 x.negative = x ↔ Binary64.IsNearest d.value x.magnitude := by
  constructor
  · intro h
    have hnearest := d.isNearest_toBinary64 x.negative
    rwa [h] at hnearest
  · intro h
    have hmagnitude := (d.isNearest_toBinary64 x.negative).unique h
    have hnegative := d.negative_toBinary64 x.negative
    generalize d.toBinary64 x.negative = y at hmagnitude hnegative
    cases y
    cases x
    cases hmagnitude
    cases hnegative
    rfl

end Decimal

/-! ## Numbers -/

namespace Binary64

theorem toLower_of_typed {c : Char} (h : c.isDigit = true ∨ c = '.') : c.toLower = c := by
  rcases h with h | rfl
  · refine dif_neg fun hupper => ?_
    have hle := (Char.isDigit_iff_toNat.mp h).2
    have hge : 'A'.toNat ≤ c.toNat := UInt32.le_iff_toNat_le.mp hupper.1
    exact absurd (Nat.le_trans hge hle) (by decide)
  · rfl

/-- A decimal is no name of a value that is not finite. -/
theorem ofChars?_of_typed {sign cs : List Char} {negative : Bool} {d : Decimal}
    (hsign : TypedSign sign negative) (hcs : d.Typed cs) :
    ofChars? (sign ++ cs) = some (d.toBinary64 negative) := by
  have hread := hcs.ofChars?
  obtain ⟨c, rest, rfl, hc⟩ := hcs.head
  have hnoSign : ∀ b ∈ (c :: rest).head?, b ≠ '+' ∧ b ≠ '-' := by
    rintro _ ⟨⟩
    rcases hc with hc | rfl
    · exact ne_sign_of_isDigit hc
    · exact ⟨by decide, by decide⟩
  -- each name begins with a letter
  have hname : ∀ name : List Char, name.head?.any (fun b => b.isDigit || b == '.') = false →
      (c :: rest).map Char.toLower ≠ name := by
    rintro _ hhead rfl
    rw [List.map_cons, List.head?_cons, toLower_of_typed hc, Option.any_some] at hhead
    rcases hc with hc | rfl
    · rw [hc] at hhead
      cases hhead
    · cases hhead
  unfold Binary64.ofChars?
  rw [splitSign_append hsign hnoSign]
  dsimp only
  rw [if_neg (not_or.mpr ⟨hname _ (by decide), hname _ (by decide)⟩),
    if_neg (hname _ (by decide)), hread]
  rfl

theorem exists_typed_of_ofChars? {cs : List Char} {x : Binary64} (h : ofChars? cs = some x)
    (hfinite : x.isFinite = true) :
    ∃ sign ds d, cs = sign ++ ds ∧ TypedSign sign x.negative ∧ Decimal.Typed ds d ∧
      IsNearest d.value x.magnitude := by
  obtain ⟨sign, hsign, hcs⟩ := exists_typedSign cs
  unfold Binary64.ofChars? at h
  dsimp only at h
  split at h
  · cases h
    cases hfinite
  split at h
  · cases h
    cases hfinite
  obtain ⟨d, hd, rfl⟩ := Option.map_eq_some_iff.mp h
  have hnegative := d.negative_toBinary64 (splitSign cs).1
  refine ⟨sign, (splitSign cs).2, d, hcs, hnegative.symm ▸ hsign, Decimal.typed_of_ofChars? hd,
    d.isNearest_toBinary64 _⟩

end Binary64

/-! ## White space -/

namespace Text

theorem trim_append {front cs back : List Char} (hfront : ∀ c ∈ front, isWhiteSpace c = true)
    (hback : ∀ c ∈ back, isWhiteSpace c = true) (hcs : ∀ c ∈ cs, isWhiteSpace c = false) :
    trim (front ++ (cs ++ back)) = cs := by
  have hdrop : ∀ white rest : List Char, (∀ c ∈ white, isWhiteSpace c = true) →
      (∀ c ∈ rest.head?, isWhiteSpace c = false) →
      (white ++ rest).dropWhile isWhiteSpace = rest := by
    intro white rest hwhite hrest
    rw [List.dropWhile_append_of_pos hwhite]
    cases rest with
    | nil => rfl
    | cons c rest => exact List.dropWhile_cons_of_neg (by simp [hrest c rfl])
  unfold trim
  cases cs with
  | nil =>
    rw [List.dropWhile_append_of_pos hfront, List.nil_append, List.dropWhile_eq_nil_iff.mpr hback]
    rfl
  | cons c cs =>
    have hfirst : ∀ b ∈ (c :: cs ++ back).head?, isWhiteSpace b = false := by
      rintro _ ⟨⟩
      exact hcs c List.mem_cons_self
    have hlast : ∀ b ∈ (c :: cs).reverse.head?, isWhiteSpace b = false :=
      fun b hb => hcs b (List.mem_reverse.mp (List.mem_of_mem_head? hb))
    rw [hdrop front _ hfront hfirst, List.reverse_append,
      hdrop back.reverse _ (fun b hb => hback b (List.mem_reverse.mp hb)) hlast,
      List.reverse_reverse]

/-- What is trimmed is white space at both ends. -/
theorem exists_trim (cs : List Char) :
    ∃ front back, cs = front ++ (trim cs ++ back) ∧
      (∀ c ∈ front, isWhiteSpace c = true) ∧ (∀ c ∈ back, isWhiteSpace c = true) := by
  let rest := cs.dropWhile isWhiteSpace
  refine ⟨cs.takeWhile isWhiteSpace, (rest.reverse.takeWhile isWhiteSpace).reverse, ?_,
    fun c hc => List.mem_takeWhile_imp hc,
    fun c hc => List.mem_takeWhile_imp (List.mem_reverse.mp hc)⟩
  have hrest : trim cs ++ (rest.reverse.takeWhile isWhiteSpace).reverse = rest := by
    unfold trim
    rw [← List.reverse_append, List.takeWhile_append_dropWhile, List.reverse_reverse]
  rw [hrest, List.takeWhile_append_dropWhile]

theorem isWhiteSpace_digit {c : Char} (h : c.isDigit = true) : isWhiteSpace c = false := by
  have hc := Char.isDigit_iff_toNat.mp h
  have hlow : 48 ≤ c.toNat := hc.1
  have hhigh : c.toNat ≤ 57 := hc.2
  simp only [isWhiteSpace, Ranges.contains, whiteSpace, List.any_cons, List.any_nil,
    Bool.or_false, Bool.or_eq_false_iff, Bool.and_eq_false_iff, decide_eq_false_iff_not]
  omega

end Text

theorem TypedSign.not_white {sign : List Char} {negative : Bool} (h : TypedSign sign negative) :
    ∀ c ∈ sign, Text.isWhiteSpace c = false := by
  cases h <;> simp <;> rfl

theorem IsDigits.not_white {ds : List Char} (h : IsDigits ds) :
    ∀ c ∈ ds, Text.isWhiteSpace c = false :=
  fun c hc => Text.isWhiteSpace_digit (h.2 c hc)

theorem TypedExponent.not_white {cs : List Char} {e : Int} (h : TypedExponent cs e) :
    ∀ c ∈ cs, Text.isWhiteSpace c = false := by
  cases h with
  | none => exact nofun
  | some hmark hsign hds =>
    refine List.forall_mem_cons.mpr ⟨?_, List.forall_mem_append.mpr
      ⟨hsign.not_white, hds.not_white⟩⟩
    rcases hmark with rfl | rfl <;> rfl

theorem Decimal.Typed.not_white {cs : List Char} {d : Decimal} (h : d.Typed cs) :
    ∀ c ∈ cs, Text.isWhiteSpace c = false := by
  cases h with
  | whole hds hpower => exact List.forall_mem_append.mpr ⟨hds.not_white, hpower.not_white⟩
  | pointed hds hpower =>
    obtain ⟨hwhole, hfraction⟩ := List.forall_mem_append.mp hds.not_white
    exact List.forall_mem_append.mpr ⟨hwhole, List.forall_mem_cons.mpr
      ⟨rfl, List.forall_mem_append.mpr ⟨hfraction, hpower.not_white⟩⟩⟩

/-! ## Reading them -/

variable {text : String} {x : Binary64}

/-- The trimmed text is read as the number. -/
theorem NumberText.ofChars? (h : NumberText text x) :
    Binary64.ofChars? (Text.trim text.toList) = some x := by
  obtain ⟨front, sign, cs, back, d, htext, hfront, hback, hsign, hcs, hnearest⟩ := h.typed
  have hwhite := List.forall_mem_append.mpr ⟨hsign.not_white, hcs.not_white⟩
  rw [htext, Text.trim_append hfront hback hwhite, Binary64.ofChars?_of_typed hsign hcs,
    Decimal.toBinary64_eq_iff.mpr hnearest]

theorem parseNumber_eq_ok_iff : parseNumber text = .ok x ↔ NumberText text x := by
  constructor
  · intro h
    unfold parseNumber at h
    split at h
    · rename_i y hread
      split at h
      · rename_i hfinite
        cases h
        obtain ⟨sign, cs, d, htrim, hsign, hcs, hnearest⟩ :=
          Binary64.exists_typed_of_ofChars? hread hfinite
        obtain ⟨front, back, htext, hfront, hback⟩ := Text.exists_trim text.toList
        rw [htrim] at htext
        exact ⟨⟨front, sign, cs, back, d, htext, hfront, hback, hsign, hcs, hnearest⟩, hfinite⟩
      · cases h
    · cases h
  · intro h
    unfold parseNumber
    rw [h.ofChars?]
    exact if_pos h.finite

theorem parseNumber_eq_error (h : ¬∃ x, NumberText text x) :
    parseNumber text = .error (.invalidNumber text) := by
  cases hread : parseNumber text with
  | ok x => exact absurd ⟨x, parseNumber_eq_ok_iff.mp hread⟩ h
  | error e =>
    unfold parseNumber at hread
    split at hread
    · split at hread <;> cases hread
      rfl
    · cases hread
      rfl

example : ["", "+", ".", "-.e5", "1e", "1e+", "1 2", "1.2.3", "inf", "NaN", "1e309"].all fun text =>
    (parseNumber text).toOption.isNone := by
  decide +kernel

end SceneScript
