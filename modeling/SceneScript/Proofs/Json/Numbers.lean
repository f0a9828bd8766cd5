import SceneScript.Json.Reader
import SceneScript.Json.Writer
import SceneScript.Proofs.Json.Strings

/-! The text of a number, read where it stands. What follows a value cannot continue a number, so
reading one gives the same result there as it gives for its text alone. The shape of a number's
text is enough for that; which value its digits stand for does not matter here. -/

namespace SceneScript

open Source

/-! ## What follows a number -/

/-- The text does not go on with a digit. -/
def Source.NoDigit (src : Source) : Prop := ∀ s ∈ src.head?, s.digit? = none

/-- The text does not go on with what could continue a number. -/
def Source.Ends (src : Source) : Prop :=
  ∀ s ∈ src.head?, s.digit? = none ∧ s ≠ .char '.' ∧ s ≠ .char 'e' ∧ s ≠ .char 'E'

theorem Source.Ends.noDigit {src : Source} (h : src.Ends) : src.NoDigit := fun s hs => (h s hs).1

theorem Source.ends_nil : Source.Ends [] := by simp [Source.Ends]

theorem Source.ends_cons {s : Symbol} {src : Source} (hd : s.digit? = none)
    (hp : s ≠ .char '.') (he : s ≠ .char 'e') (hE : s ≠ .char 'E') : Source.Ends (s :: src) := by
  simpa [Source.Ends] using ⟨hd, hp, he, hE⟩

/-! ## The shape of a number's text -/

def IsDigits (cs : List Char) : Prop := cs ≠ [] ∧ ∀ c ∈ cs, c.isDigit = true

inductive IsFraction : List Char → Prop
  | none : IsFraction []
  | some {ds : List Char} : IsDigits ds → IsFraction ('.' :: ds)

inductive IsExponent : List Char → Prop
  | none : IsExponent []
  | some {ds : List Char} {sign : Char} :
      sign = '+' ∨ sign = '-' → IsDigits ds → IsExponent ('e' :: sign :: ds)

/-- Digits, a fraction and an exponent, behind a sign. -/
inductive IsNumber : List Char → Prop
  | mk (negative : Bool) {whole fraction exponent : List Char} : IsDigits whole →
      IsFraction fraction → IsExponent exponent →
      IsNumber (Binary64.signed negative (whole ++ (fraction ++ exponent)))

/-- Reading the text gives the result `r` whatever follows it. -/
def ReadsAs {α : Type} (read : Source → Except Fault (Read α)) (cs : List Char)
    (r : Except Fault α) : Prop :=
  ∀ rest, Ends rest → read (ofChars cs ++ rest) = r.map (·, rest)

theorem IsExponent.noDigit {cs : List Char} (h : IsExponent cs) {rest : Source}
    (hrest : rest.Ends) : NoDigit (ofChars cs ++ rest) := by
  cases h with
  | none => simpa using hrest.noDigit
  | some hs hd => simp [NoDigit, Symbol.digit?]

theorem IsFraction.noDigit {cs ex : List Char} (h : IsFraction cs) (he : IsExponent ex)
    {rest : Source} (hrest : rest.Ends) : NoDigit (ofChars (cs ++ ex) ++ rest) := by
  cases h with
  | none => exact he.noDigit hrest
  | some hd => simp [NoDigit, Symbol.digit?]

/-! ## Runs of digits -/

theorem digit?_of_isDigit {c : Char} (hc : c.isDigit = true) :
    (Symbol.char c).digit? = some (c.toNat - '0'.toNat) := by
  simp [Symbol.digit?, hc]

namespace Scaled

theorem dropDigits_append {ds : List Char} (hd : ∀ c ∈ ds, c.isDigit = true) {tail : Source}
    (ht : tail.NoDigit) : dropDigits (ofChars ds ++ tail) = tail := by
  have hall : ∀ s ∈ ofChars ds, s.digit?.isSome = true := by
    intro s hs
    obtain ⟨c, hc, rfl⟩ := List.mem_map.mp hs
    simp [digit?_of_isDigit (hd c hc)]
  unfold dropDigits
  rw [List.dropWhile_append_of_pos hall]
  cases tail with
  | nil => rfl
  | cons s src => simp [ht s (by simp)]

theorem countDigits_append {ds : List Char} (hd : ∀ c ∈ ds, c.isDigit = true) {tail : Source}
    (ht : tail.NoDigit) : countDigits (ofChars ds ++ tail) = ds.length := by
  have hall : ∀ s ∈ ofChars ds, s.digit?.isSome = true := by
    intro s hs
    obtain ⟨c, hc, rfl⟩ := List.mem_map.mp hs
    simp [digit?_of_isDigit (hd c hc)]
  unfold countDigits
  rw [List.takeWhile_append_of_pos hall]
  cases tail with
  | nil => simp
  | cons s src => simp [ht s (by simp)]

/-- Digits that fit go into the significand, and those left over are digits still. -/
theorem digits_append (ds : List Char) (hd : ∀ c ∈ ds, c.isDigit = true) (significand count : Nat) :
    ∃ (significand' count' : Nat) (left : List Char), (∀ c ∈ left, c.isDigit = true) ∧
      ∀ tail, NoDigit tail →
        digits (ofChars ds ++ tail) significand count =
          (significand', count', ofChars left ++ tail) := by
  induction ds generalizing significand count with
  | nil =>
    refine ⟨significand, count, [], by simp, fun tail ht => ?_⟩
    cases tail with
    | nil => rfl
    | cons s src => simp [digits, ht s (by simp)]
  | cons c ds ih =>
    have hc := digit?_of_isDigit (hd c (by simp))
    have hds : ∀ c ∈ ds, c.isDigit = true := fun x hx => hd x (by simp [hx])
    by_cases hfit : significand * 10 + (c.toNat - '0'.toNat) ≤ maxSignificand
    · obtain ⟨significand', count', left, hleft, h⟩ := ih hds _ (count + 1)
      refine ⟨significand', count', left, hleft, fun tail ht => ?_⟩
      simp only [ofChars, List.map_cons, List.cons_append, digits, hc, if_pos hfit]
      exact h tail ht
    · refine ⟨significand, count, c :: ds, hd, fun tail _ => ?_⟩
      simp only [ofChars, List.map_cons, List.cons_append, digits, hc, if_neg hfit]

/-- The digits of an exponent are all taken, whether they fit or not. -/
theorem exponentDigits_append (ds : List Char) (hd : ∀ c ∈ ds, c.isDigit = true) (e : Nat) :
    ∃ e' : Option Nat, ∀ tail, NoDigit tail →
      exponentDigits (ofChars ds ++ tail) e = (e', tail) := by
  induction ds generalizing e with
  | nil =>
    refine ⟨some e, fun tail ht => ?_⟩
    cases tail with
    | nil => rfl
    | cons s src => simp [exponentDigits, ht s (by simp)]
  | cons c ds ih =>
    have hc := digit?_of_isDigit (hd c (by simp))
    have hds : ∀ c ∈ ds, c.isDigit = true := fun x hx => hd x (by simp [hx])
    by_cases hfit : e * 10 + (c.toNat - '0'.toNat) ≤ maxExponent
    · obtain ⟨e', h⟩ := ih hds (e * 10 + (c.toNat - '0'.toNat))
      refine ⟨e', fun tail ht => ?_⟩
      simp only [ofChars, List.map_cons, List.cons_append, exponentDigits, hc, if_pos hfit]
      exact h tail ht
    · refine ⟨none, fun tail ht => ?_⟩
      simp only [ofChars, List.map_cons, List.cons_append, exponentDigits, hc, if_neg hfit]
      rw [dropDigits_append hds ht]

/-! ## The parts of a number -/

theorem readExponent_digits (negative : Bool) (s : Scaled) {sign : Char} {ds : List Char}
    (hs : sign = '+' ∨ sign = '-') (hd : IsDigits ds) :
    ∃ r, ReadsAs (readExponent negative s) (sign :: ds) r := by
  obtain ⟨hne, hall⟩ := hd
  obtain ⟨e, he⟩ := exponentDigits_append ds hall 0
  obtain ⟨d, ds', rfl⟩ := List.exists_cons_of_ne_nil hne
  have hdigit := digit?_of_isDigit (hall d (by simp))
  refine ⟨match e with
    | some e => toReal negative
        ⟨s.significand, clamp (s.exponent + (if sign = '-' then -(e : Int) else e))⟩
    | none => if s.significand ≠ 0 ∧ sign = '+' then .error .numberOutOfRange
        else .ok (.real (.zero negative)), fun rest hrest => ?_⟩
  have hread := he rest hrest.noDigit
  simp only [ofChars, List.map_cons, List.cons_append] at hread ⊢
  rcases hs with rfl | rfl
  · simp only [readExponent, hdigit, hread, Option.isNone_some, Bool.false_eq_true, if_false]
    cases e with
    | some e => simp only [Char.reduceEq, if_false]; cases toReal negative _ <;> rfl
    | none => by_cases hz : s.significand = 0 <;> simp [hz, Except.map]
  · simp only [readExponent, hdigit, hread, Option.isNone_some, Bool.false_eq_true, if_false]
    cases e with
    | some e => simp only [if_true]; cases toReal negative _ <;> rfl
    | none => simp [Except.map]

theorem readEnd_exponent (negative : Bool) (s : Scaled) {cs : List Char} (h : IsExponent cs) :
    ∃ r, ReadsAs (readEnd negative s) cs r := by
  cases h with
  | none =>
    refine ⟨toReal negative s, fun rest hrest => ?_⟩
    cases rest with
    | nil =>
      simp only [ofChars, List.map_nil, List.append_nil, readEnd]
      cases toReal negative s <;> rfl
    | cons t src =>
      obtain ⟨-, -, he, hE⟩ := hrest t (by simp)
      cases t with
      | stray b =>
        simp only [ofChars, List.map_nil, List.nil_append, readEnd]
        cases toReal negative s <;> rfl
      | char c =>
        have hc : ¬ (c = 'e' ∨ c = 'E') := by
          rintro (rfl | rfl)
          · exact he rfl
          · exact hE rfl
        simp only [ofChars, List.map_nil, List.nil_append, readEnd, if_neg hc]
        cases toReal negative s <;> rfl
  | some hs hd =>
    obtain ⟨r, hr⟩ := readExponent_digits negative s hs hd
    refine ⟨r, fun rest hrest => ?_⟩
    simpa [readEnd] using hr rest hrest

theorem readFraction_digits (negative : Bool) (s : Scaled) {ds cs : List Char} (hd : IsDigits ds)
    (h : IsExponent cs) : ∃ r, ReadsAs (readFraction negative s) (ds ++ cs) r := by
  obtain ⟨hne, hall⟩ := hd
  obtain ⟨significand, count, left, hleft, hdigits⟩ := digits_append ds hall s.significand 0
  obtain ⟨r, hr⟩ := readEnd_exponent negative ⟨significand, s.exponent - count⟩ h
  obtain ⟨d, ds', rfl⟩ := List.exists_cons_of_ne_nil hne
  have hdigit := digit?_of_isDigit (hall d (by simp))
  refine ⟨r, fun rest hrest => ?_⟩
  have htail := h.noDigit hrest
  have hread := hdigits _ htail
  simp only [ofChars, List.map_cons, List.cons_append] at hread
  simp only [ofChars, List.map_append, List.map_cons, List.cons_append, List.append_assoc]
  simp only [readFraction, hdigit, hread, Option.isNone_some, Bool.false_eq_true, if_false]
  rw [dropDigits_append hleft htail]
  exact hr rest hrest

/-- What is read behind the whole digits, the last `dropped` of which did not fit. -/
def readBehindWhole (negative : Bool) (significand dropped : Nat) :
    Source → Except Fault (Read Numeral)
  | .char '.' :: rest => readFraction negative ⟨significand, dropped⟩ rest
  | rest =>
    if dropped ≠ 0 then readEnd negative ⟨significand, dropped⟩ rest
    else
      match rest with
      | .char c :: rest' =>
        if c = 'e' ∨ c = 'E' then readExponent negative ⟨significand, dropped⟩ rest'
        else .ok (toInteger negative significand, rest)
      | _ => .ok (toInteger negative significand, rest)

theorem readUnsigned_cons (negative : Bool) {d : Symbol} {rest left : Source}
    {significand count : Nat} (hd : d.digit?.isNone = false)
    (hz : ¬ (d = .char '0' ∧ countDigits rest ≠ 0))
    (hdigits : digits (d :: rest) 0 0 = (significand, count, left)) :
    readUnsigned negative (d :: rest) =
      readBehindWhole negative significand (countDigits left) (dropDigits left) := by
  simp only [readUnsigned, hd, Bool.false_eq_true, if_false, if_neg hz, hdigits]
  rfl

theorem readBehindWhole_fraction (negative : Bool) (significand dropped : Nat)
    {fraction exponent : List Char} (hf : IsFraction fraction) (he : IsExponent exponent) :
    ∃ r, ReadsAs (readBehindWhole negative significand dropped) (fraction ++ exponent) r := by
  cases hf with
  | some hd =>
    obtain ⟨r, hr⟩ := readFraction_digits negative ⟨significand, dropped⟩ hd he
    refine ⟨r, fun rest hrest => ?_⟩
    simpa [readBehindWhole] using hr rest hrest
  | none =>
    rw [List.nil_append]
    by_cases hdrop : dropped ≠ 0
    · obtain ⟨r, hr⟩ := readEnd_exponent negative ⟨significand, dropped⟩ he
      refine ⟨r, fun rest hrest => ?_⟩
      rw [← hr rest hrest]
      unfold readBehindWhole
      split
      · rename_i src heq
        cases he with
        | none => exact absurd rfl (hrest (.char '.') (by simp_all)).2.1
        | some hs hd => simp at heq
      · rw [if_pos hdrop]
    · cases he with
      | none =>
        refine ⟨.ok (toInteger negative significand), fun rest hrest => ?_⟩
        cases rest with
        | nil => simp [readBehindWhole, hdrop, Except.map]
        | cons t src =>
          obtain ⟨-, hp, he, hE⟩ := hrest t (by simp)
          cases t with
          | stray b => simp [readBehindWhole, hdrop, Except.map]
          | char c =>
            have hc : c ≠ '.' ∧ c ≠ 'e' ∧ c ≠ 'E' := by simp_all
            simp [readBehindWhole, hdrop, hc, Except.map]
      | some hs hd =>
        obtain ⟨r, hr⟩ := readExponent_digits negative ⟨significand, dropped⟩ hs hd
        refine ⟨r, fun rest hrest => ?_⟩
        simpa [readBehindWhole, hdrop] using hr rest hrest

theorem readUnsigned_digits (negative : Bool) {whole fraction exponent : List Char}
    (hw : IsDigits whole) (hf : IsFraction fraction) (he : IsExponent exponent) :
    ∃ r, ReadsAs (readUnsigned negative) (whole ++ (fraction ++ exponent)) r := by
  obtain ⟨hne, hall⟩ := hw
  obtain ⟨d, ds, rfl⟩ := List.exists_cons_of_ne_nil hne
  have hdigit : (Symbol.char d).digit?.isNone = false := by
    rw [digit?_of_isDigit (hall d (by simp))]; rfl
  have hcount : ∀ rest, Ends rest →
      countDigits (ofChars ds ++ (ofChars (fraction ++ exponent) ++ rest)) = ds.length :=
    fun rest hrest => countDigits_append (fun c hc => hall c (by simp [hc])) (hf.noDigit he hrest)
  have hsplit : ∀ rest, ofChars (d :: ds ++ (fraction ++ exponent)) ++ rest =
      .char d :: (ofChars ds ++ (ofChars (fraction ++ exponent) ++ rest)) := by simp
  by_cases hzero : Symbol.char d = .char '0' ∧ ds.length ≠ 0
  · refine ⟨.error .invalidNumber, fun rest hrest => ?_⟩
    rw [hsplit]
    simp only [readUnsigned, hdigit, Bool.false_eq_true, if_false, hcount rest hrest, if_pos hzero]
    rfl
  · obtain ⟨significand, count, left, hleft, hdigits⟩ := digits_append (d :: ds) hall 0 0
    obtain ⟨r, hr⟩ := readBehindWhole_fraction negative significand left.length hf he
    refine ⟨r, fun rest hrest => ?_⟩
    have htail := hf.noDigit he hrest
    have hz : ¬ (Symbol.char d = .char '0' ∧
        countDigits (ofChars ds ++ (ofChars (fraction ++ exponent) ++ rest)) ≠ 0) := by
      rwa [hcount rest hrest]
    have hread := readUnsigned_cons negative hdigit hz (hdigits _ htail)
    rw [hsplit, hread, dropDigits_append hleft htail, countDigits_append hleft htail]
    exact hr rest hrest

/-- A number's text gives one result wherever it is read. -/
theorem read_isNumber {cs : List Char} (h : IsNumber cs) : ∃ r, ReadsAs read cs r := by
  obtain ⟨negative, hw, hf, he⟩ := h
  rename_i whole fraction exponent
  obtain ⟨r, hr⟩ := readUnsigned_digits negative hw hf he
  refine ⟨r, fun rest hrest => ?_⟩
  cases negative with
  | true => simpa [Binary64.signed, read] using hr rest hrest
  | false =>
    rw [← hr rest hrest]
    obtain ⟨hne, hall⟩ := hw
    obtain ⟨d, ds, rfl⟩ := List.exists_cons_of_ne_nil hne
    have hd : d ≠ '-' := by rintro rfl; simpa using hall '-' (by simp)
    simp [Binary64.signed, read, hd]

end Scaled

/-! ## Written numbers -/

theorem isDigits_toDigits (n : Nat) : IsDigits (Nat.toDigits 10 n) :=
  ⟨Nat.toDigits_ne_nil, fun _ hc => Nat.isDigit_of_mem_toDigits (by decide) (by decide) hc⟩

theorem IsDigits.append_zeros {ds : List Char} (h : IsDigits ds) (n : Nat) :
    IsDigits (ds ++ Decimal.zeros n) := by
  refine ⟨by simp [h.1], fun c hc => ?_⟩
  rcases List.mem_append.mp hc with hc | hc
  · exact h.2 c hc
  · rw [(List.mem_replicate.mp hc).2]; decide

namespace Decimal

theorem isNumber_positional (negative : Bool) (d : Decimal) :
    IsNumber (Binary64.signed negative (d.positional ['.', '0'])) := by
  have hds := isDigits_toDigits d.digits
  unfold positional
  dsimp only
  split
  · have hzero : IsDigits (zeros (-d.point).toNat ++ Nat.toDigits 10 d.digits) := by
      refine ⟨by simp [hds.1], fun c hc => ?_⟩
      rcases List.mem_append.mp hc with hc | hc
      · rw [(List.mem_replicate.mp hc).2]; decide
      · exact hds.2 c hc
    have hwhole : IsDigits ['0'] := ⟨by simp, List.forall_mem_singleton.mpr rfl⟩
    simpa using IsNumber.mk negative hwhole (.some hzero) .none
  split
  · have hpoint : IsDigits ['0'] := ⟨by simp, List.forall_mem_singleton.mpr rfl⟩
    simpa using IsNumber.mk negative
      (hds.append_zeros (d.point.toNat - (Nat.toDigits 10 d.digits).length))
      (.some hpoint) .none
  · have hwhole : IsDigits ((Nat.toDigits 10 d.digits).take d.point.toNat) := by
      refine ⟨?_, fun c hc => hds.2 c (List.mem_of_mem_take hc)⟩
      rw [Ne, List.take_eq_nil_iff, not_or]
      exact ⟨by omega, hds.1⟩
    have hrest : IsDigits ((Nat.toDigits 10 d.digits).drop d.point.toNat) := by
      refine ⟨?_, fun c hc => hds.2 c (List.mem_of_mem_drop hc)⟩
      rw [Ne, List.drop_eq_nil_iff]
      omega
    simpa using IsNumber.mk negative hwhole (.some hrest) .none

theorem isNumber_scientific (negative : Bool) (d : Decimal) :
    IsNumber (Binary64.signed negative d.scientific) := by
  obtain ⟨hne, hall⟩ := isDigits_toDigits d.digits
  have hexp : IsExponent ('e' :: (if d.point - 1 < 0 then '-' else '+') ::
      Nat.toDigits 10 (d.point - 1).natAbs) :=
    .some (by split <;> simp) (isDigits_toDigits _)
  unfold scientific
  cases hds : Nat.toDigits 10 d.digits with
  | nil => exact absurd hds hne
  | cons c ds =>
    rw [hds] at hall
    have hc : IsDigits [c] := ⟨by simp, by simpa using hall c (by simp)⟩
    cases ds with
    | nil => simpa using IsNumber.mk negative hc .none hexp
    | cons c' ds =>
      have hds' : IsDigits (c' :: ds) := ⟨by simp, fun x hx => hall x (List.mem_cons_of_mem _ hx)⟩
      simpa using IsNumber.mk negative hc (.some hds') hexp

end Decimal

theorem isNumber_documentText (x : Binary64) : IsNumber x.documentText.toList := by
  unfold Binary64.documentText
  simp only [String.toList_ofList]
  split
  · exact Decimal.isNumber_positional _ _
  · exact Decimal.isNumber_scientific _ _

theorem isNumber_toString (i : Int) : IsNumber (toString i).toList := by
  have h : (toString i).toList =
      Binary64.signed (decide (i < 0)) (Nat.toDigits 10 i.natAbs ++ ([] ++ [])) := by
    cases i with
    | ofNat n => simp [Binary64.signed, toString, Int.repr, Nat.toList_repr]
    | negSucc n =>
      simp [Binary64.signed, toString, Int.repr, Nat.toList_repr, Int.negSucc_lt_zero]
  rw [h]
  exact .mk _ (isDigits_toDigits _) .none .none

/-- What is written for a number is a number, or the word for a value that is not finite. -/
theorem Numeral.text_shape (n : Numeral) : IsNumber n.text.toList ∨ n.text = "null" := by
  cases n with
  | integer i => exact .inl (isNumber_toString i)
  | real x =>
    by_cases hx : x.isFinite = true
    · simpa [Numeral.text, hx] using .inl (isNumber_documentText x)
    · exact .inr (by simp [Numeral.text, hx])

theorem IsNumber.head {cs : List Char} (h : IsNumber cs) :
    ∃ c cs', cs = c :: cs' ∧ (c = '-' ∨ c.isDigit = true) := by
  obtain ⟨negative, ⟨hne, hall⟩, -, -⟩ := h
  obtain ⟨d, ds, rfl⟩ := List.exists_cons_of_ne_nil hne
  cases negative with
  | true => exact ⟨_, _, rfl, .inl rfl⟩
  | false => exact ⟨d, _, rfl, .inr (hall d (by simp))⟩

end SceneScript
