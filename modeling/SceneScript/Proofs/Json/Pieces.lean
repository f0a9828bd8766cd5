import SceneScript.Proofs.Json.Trees

/-! What was read stands for itself. The symbols a reader took give the same value wherever they
stand, as long as what follows cannot continue a number, and however long the text around them is:
their own number is bound enough. -/

namespace SceneScript

open Source

/-- The symbols `used` are taken for `a` whatever follows them. -/
def Stands {α : Type} (read : Source → Except Fault (Read α)) (used : Source) (a : α) : Prop :=
  ∀ other, Ends other → read (used ++ other) = .ok (a, other)

/-- Whatever is read was taken from the front of the text, and stands. -/
def TakesPieces {α : Type} (read : Source → Except Fault (Read α)) : Prop :=
  ∀ {src : Source} {a : α} {rest : Source}, read src = .ok (a, rest) →
    ∃ used, src = used ++ rest ∧ Stands read used a

/-! ## Numbers -/

theorem Source.exists_digits : ∀ src : Source,
    ∃ ds tail, src = ofChars ds ++ tail ∧ (∀ c ∈ ds, c.isDigit = true) ∧ NoDigit tail
  | [] => ⟨[], [], rfl, List.forall_mem_nil _, by simp [NoDigit]⟩
  | .stray b :: src =>
    ⟨[], .stray b :: src, rfl, List.forall_mem_nil _, by simp [NoDigit, Symbol.digit?]⟩
  | .char c :: src => by
    by_cases hc : c.isDigit = true
    · obtain ⟨ds, tail, hsrc, hds, htail⟩ := exists_digits src
      exact ⟨c :: ds, tail, by rw [hsrc]; rfl, List.forall_mem_cons.mpr ⟨hc, hds⟩, htail⟩
    · exact ⟨[], .char c :: src, rfl, List.forall_mem_nil _, by simp [NoDigit, Symbol.digit?, hc]⟩

theorem noDigit_append {used rest other : Source} (h : NoDigit (used ++ rest))
    (hother : NoDigit other) : NoDigit (used ++ other) := by
  cases used with
  | nil => exact hother
  | cons s used => exact h

/-- A digit in front makes the run of digits one that is not empty. -/
theorem ne_nil_of_digit {d : Symbol} {src tail : Source} {ds : List Char}
    (hd : d.digit?.isNone = false) (h : d :: src = ofChars ds ++ tail) (htail : NoDigit tail) :
    ds ≠ [] := by
  rintro rfl
  have hnone := htail d (by rw [← show d :: src = tail from h]; rfl)
  rw [hnone] at hd
  cases hd

namespace Scaled

/-- The digits of an exponent, behind its sign. -/
def readBehindSign (negative below : Bool) (s : Scaled) (src : Source) :
    Except Fault (Read Numeral) :=
  match src with
  | [] => .error (.eof .value)
  | d :: _ =>
    if d.digit?.isNone then .error .invalidNumber
    else
      match exponentDigits src 0 with
      | (some e, rest) => do
        let e : Int := if below then -e else e
        let n ← toReal negative ⟨s.significand, clamp (s.exponent + e)⟩
        .ok (n, rest)
      | (none, rest) =>
        if s.significand ≠ 0 ∧ !below then .error .numberOutOfRange
        else .ok (.real (.zero negative), rest)

theorem readExponent_bare (negative : Bool) (s : Scaled) {src : Source}
    (hplus : src.head? ≠ some (.char '+')) (hminus : src.head? ≠ some (.char '-')) :
    readExponent negative s src = readBehindSign negative false s src := by
  cases src with
  | nil => rfl
  | cons d src =>
    cases d with
    | stray b => rfl
    | char c =>
      have hp : c ≠ '+' := by rintro rfl; exact hplus rfl
      have hm : c ≠ '-' := by rintro rfl; exact hminus rfl
      unfold readExponent
      split
      rename_i below src' heq
      obtain ⟨rfl, rfl⟩ : below = false ∧ src' = .char c :: src := by
        split at heq <;> simp_all
      rfl

theorem readBehindSign_digits {negative below : Bool} {s : Scaled} {src rest : Source}
    {x : Numeral} (h : readBehindSign negative below s src = .ok (x, rest)) :
    ∃ ds, IsDigits ds ∧ src = ofChars ds ++ rest ∧
      Stands (readBehindSign negative below s) (ofChars ds) x := by
  cases src with
  | nil => cases h
  | cons d src =>
    cases hd : d.digit?.isNone with
    | true => simp [readBehindSign, hd] at h
    | false =>
      obtain ⟨ds, tail, hsrc, hds, htail⟩ := exists_digits (d :: src)
      obtain ⟨e, he⟩ := exponentDigits_append ds hds 0
      have hne := ne_nil_of_digit hd hsrc htail
      -- what comes of the digits does not depend on the tail
      obtain ⟨r, hr⟩ : ∃ r : Except Fault Numeral, ∀ other, NoDigit other →
          readBehindSign negative below s (ofChars ds ++ other) = r.map (·, other) := by
        obtain ⟨c, ds', rfl⟩ := List.exists_cons_of_ne_nil hne
        have hdigit : (Symbol.char c).digit?.isNone = false := by
          rw [digit?_of_isDigit (hds c (by simp))]; rfl
        refine ⟨match e with
          | some e => toReal negative
              ⟨s.significand, clamp (s.exponent + if below then -(e : Int) else e)⟩
          | none => if s.significand ≠ 0 ∧ !below then .error .numberOutOfRange
              else .ok (.real (.zero negative)), fun other hother => ?_⟩
        have hexp := he other hother
        simp only [ofChars, List.map_cons, List.cons_append] at hexp ⊢
        simp only [readBehindSign, hdigit, hexp, Bool.false_eq_true, if_false]
        cases e with
        | some e => simp only; cases toReal negative _ <;> rfl
        | none => simp only; split <;> rfl
      rw [hsrc, hr tail htail] at h
      cases r with
      | error e => cases h
      | ok y =>
        cases h
        exact ⟨ds, ⟨hne, hds⟩, hsrc, fun other hother => hr other hother.noDigit⟩

theorem readExponent_takesPieces (negative : Bool) (s : Scaled) :
    TakesPieces (readExponent negative s) := by
  intro src x rest h
  by_cases hplus : src.head? = some (.char '+')
  · obtain ⟨tail, rfl⟩ := List.head?_eq_some_iff.mp hplus
    change readBehindSign negative false s tail = _ at h
    obtain ⟨ds, -, rfl, hstands⟩ := readBehindSign_digits h
    exact ⟨.char '+' :: ofChars ds, rfl, fun other hother => hstands other hother⟩
  by_cases hminus : src.head? = some (.char '-')
  · obtain ⟨tail, rfl⟩ := List.head?_eq_some_iff.mp hminus
    change readBehindSign negative true s tail = _ at h
    obtain ⟨ds, -, rfl, hstands⟩ := readBehindSign_digits h
    exact ⟨.char '-' :: ofChars ds, rfl, fun other hother => hstands other hother⟩
  · rw [readExponent_bare negative s hplus hminus] at h
    obtain ⟨ds, ⟨hne, hds⟩, rfl, hstands⟩ := readBehindSign_digits h
    obtain ⟨c, ds', rfl⟩ := List.exists_cons_of_ne_nil hne
    refine ⟨ofChars (c :: ds'), rfl, fun other hother => ?_⟩
    refine (readExponent_bare negative s ?_ ?_).trans (hstands other hother)
    · exact hplus
    · exact hminus

/-- The text goes on with an exponent. -/
def AtExponent (src : Source) : Prop :=
  ∃ c tail, src = .char c :: tail ∧ (c = 'e' ∨ c = 'E')

theorem not_atExponent {src : Source} (h : Ends src) : ¬AtExponent src := by
  rintro ⟨c, tail, rfl, hc⟩
  obtain ⟨-, -, he, hE⟩ := h (.char c) rfl
  rcases hc with rfl | rfl
  · exact he rfl
  · exact hE rfl

/-- A reader that takes either an exponent or nothing more. -/
theorem takes_exponent {read : Source → Except Fault (Read Numeral)} (negative : Bool) (s : Scaled)
    (r : Except Fault Numeral) (ends : Source → Prop)
    (hexp : ∀ c tail, c = 'e' ∨ c = 'E' → read (.char c :: tail) = readExponent negative s tail)
    (hends : ∀ other, Ends other → ends other)
    (hend : ∀ src, ¬AtExponent src → ends src → read src = r.map (·, src))
    {src rest : Source} {x : Numeral} (hsrc : ends src) (h : read src = .ok (x, rest)) :
    ∃ used, src = used ++ rest ∧ Stands read used x := by
  by_cases hat : AtExponent src
  · obtain ⟨c, tail, rfl, hc⟩ := hat
    rw [hexp c tail hc] at h
    obtain ⟨used, rfl, hstands⟩ := readExponent_takesPieces negative s h
    refine ⟨.char c :: used, rfl, fun other hother => ?_⟩
    exact (hexp c (used ++ other) hc).trans (hstands other hother)
  · rw [hend src hat hsrc] at h
    cases r with
    | error e => cases h
    | ok y =>
      cases h
      exact ⟨[], rfl, fun other hother => hend other (not_atExponent hother) (hends other hother)⟩

theorem readEnd_takesPieces (negative : Bool) (s : Scaled) : TakesPieces (readEnd negative s) := by
  intro src x rest h
  refine takes_exponent negative s (toReal negative s) (fun _ => True) ?_ ?_ ?_ trivial h
  · intro c tail hc
    simp only [readEnd, if_pos hc]
  · exact fun _ _ => trivial
  · intro src hat _
    cases src with
    | nil => simp only [readEnd]; cases toReal negative s <;> rfl
    | cons t src =>
      cases t with
      | stray b => simp only [readEnd]; cases toReal negative s <;> rfl
      | char c =>
        have hc : ¬(c = 'e' ∨ c = 'E') := fun hc => hat ⟨c, src, rfl, hc⟩
        simp only [readEnd, if_neg hc]
        cases toReal negative s <;> rfl

theorem readFraction_takesPieces (negative : Bool) (s : Scaled) :
    TakesPieces (readFraction negative s) := by
  intro src x rest h
  cases src with
  | nil => cases h
  | cons d src =>
    cases hd : d.digit?.isNone with
    | true => simp [readFraction, hd] at h
    | false =>
      obtain ⟨ds, tail, hsrc, hds, htail⟩ := exists_digits (d :: src)
      have hne := ne_nil_of_digit hd hsrc htail
      obtain ⟨significand, count, left, hleft, hdigits⟩ := digits_append ds hds s.significand 0
      have hread : ∀ other, NoDigit other → readFraction negative s (ofChars ds ++ other) =
          readEnd negative ⟨significand, s.exponent - count⟩ other := by
        intro other hother
        obtain ⟨c, ds', rfl⟩ := List.exists_cons_of_ne_nil hne
        have hdigit : (Symbol.char c).digit?.isNone = false := by
          rw [digit?_of_isDigit (hds c (by simp))]; rfl
        have hrun := hdigits other hother
        simp only [ofChars, List.map_cons, List.cons_append] at hrun ⊢
        simp only [readFraction, hdigit, hrun, Bool.false_eq_true, if_false]
        rw [dropDigits_append hleft hother]
      rw [hsrc, hread tail htail] at h
      obtain ⟨used, rfl, hstands⟩ := readEnd_takesPieces _ _ h
      refine ⟨ofChars ds ++ used, by rw [hsrc, List.append_assoc], fun other hother => ?_⟩
      rw [List.append_assoc, hread _ (noDigit_append htail hother.noDigit)]
      exact hstands other hother

theorem readBehindWhole_char (negative : Bool) (significand dropped : Nat) {c : Char} (hc : c ≠ '.')
    (src : Source) :
    readBehindWhole negative significand dropped (.char c :: src) =
      if dropped ≠ 0 then readEnd negative ⟨significand, dropped⟩ (.char c :: src)
      else if c = 'e' ∨ c = 'E' then readExponent negative ⟨significand, dropped⟩ src
      else .ok (toInteger negative significand, .char c :: src) := by
  unfold readBehindWhole
  split
  · rename_i heq
    cases heq
    exact absurd rfl hc
  · rfl

theorem readBehindWhole_takesPieces (negative : Bool) (significand dropped : Nat) :
    TakesPieces (readBehindWhole negative significand dropped) := by
  intro src x rest h
  by_cases hpoint : src.head? = some (.char '.')
  · obtain ⟨tail, rfl⟩ := List.head?_eq_some_iff.mp hpoint
    obtain ⟨used, rfl, hstands⟩ := readFraction_takesPieces negative ⟨significand, dropped⟩ h
    exact ⟨.char '.' :: used, rfl, fun other hother => hstands other hother⟩
  · refine takes_exponent negative ⟨significand, dropped⟩
      (if dropped ≠ 0 then toReal negative ⟨significand, dropped⟩
        else .ok (toInteger negative significand))
      (fun src => src.head? ≠ some (.char '.')) ?_ ?_ ?_ hpoint h
    · intro c tail hc
      have hne : c ≠ '.' := by rintro rfl; simp at hc
      rw [readBehindWhole_char negative significand dropped hne]
      by_cases hdropped : dropped ≠ 0
      · simp only [if_pos hdropped, readEnd, if_pos hc]
      · simp only [if_neg hdropped, if_pos hc]
    · exact fun other hother hhead => (hother _ hhead).2.1 rfl
    · intro src hat hhead
      cases src with
      | nil =>
        by_cases hdropped : dropped ≠ 0
        · simp only [readBehindWhole, if_pos hdropped, readEnd]
          cases toReal negative _ <;> rfl
        · simp only [readBehindWhole, if_neg hdropped]
          rfl
      | cons t src =>
        cases t with
        | stray b =>
          by_cases hdropped : dropped ≠ 0
          · simp only [readBehindWhole, if_pos hdropped, readEnd]
            cases toReal negative _ <;> rfl
          · simp only [readBehindWhole, if_neg hdropped]
            rfl
        | char c =>
          have hne : c ≠ '.' := by rintro rfl; exact hhead rfl
          have hc : ¬(c = 'e' ∨ c = 'E') := fun hc => hat ⟨c, src, rfl, hc⟩
          rw [readBehindWhole_char negative significand dropped hne]
          by_cases hdropped : dropped ≠ 0
          · simp only [if_pos hdropped, readEnd, if_neg hc]
            cases toReal negative _ <;> rfl
          · simp only [if_neg hdropped, if_neg hc]
            rfl

theorem readUnsigned_takesPieces (negative : Bool) : TakesPieces (readUnsigned negative) := by
  intro src x rest h
  cases src with
  | nil => cases h
  | cons d src =>
    cases hd : d.digit?.isNone with
    | true => simp [readUnsigned, hd] at h
    | false =>
      obtain ⟨ds, tail, hsrc, hds, htail⟩ := exists_digits (d :: src)
      have hne := ne_nil_of_digit hd hsrc htail
      obtain ⟨c, ds', rfl⟩ := List.exists_cons_of_ne_nil hne
      obtain ⟨significand, count, left, hleft, hdigits⟩ := digits_append (c :: ds') hds 0 0
      have hdigit : (Symbol.char c).digit?.isNone = false := by
        rw [digit?_of_isDigit (hds c (by simp))]; rfl
      have hcount : ∀ other, NoDigit other → countDigits (ofChars ds' ++ other) = ds'.length :=
        fun other hother => countDigits_append (fun c hc => hds c (by simp [hc])) hother
      by_cases hzero : Symbol.char c = .char '0' ∧ ds'.length ≠ 0
      · rw [hsrc] at h
        have hz : Symbol.char c = .char '0' ∧ countDigits (ofChars ds' ++ tail) ≠ 0 := by
          rwa [hcount tail htail]
        simp only [ofChars, List.map_cons, List.cons_append, readUnsigned, hdigit,
          Bool.false_eq_true, if_false] at h
        rw [if_pos hz] at h
        cases h
      · have hread : ∀ other, NoDigit other → readUnsigned negative (ofChars (c :: ds') ++ other) =
            readBehindWhole negative significand left.length other := by
          intro other hother
          have hz : ¬(Symbol.char c = .char '0' ∧ countDigits (ofChars ds' ++ other) ≠ 0) := by
            rwa [hcount other hother]
          refine (readUnsigned_cons negative hdigit hz (hdigits other hother)).trans ?_
          rw [countDigits_append hleft hother, dropDigits_append hleft hother]
        rw [hsrc, hread tail htail] at h
        obtain ⟨used, rfl, hstands⟩ := readBehindWhole_takesPieces _ _ _ h
        refine ⟨ofChars (c :: ds') ++ used, by rw [hsrc, List.append_assoc], fun other hother => ?_⟩
        rw [List.append_assoc, hread _ (noDigit_append htail hother.noDigit)]
        exact hstands other hother

theorem read_takesPieces : TakesPieces read := by
  intro src x rest h
  by_cases hminus : src.head? = some (.char '-')
  · obtain ⟨tail, rfl⟩ := List.head?_eq_some_iff.mp hminus
    obtain ⟨used, rfl, hstands⟩ := readUnsigned_takesPieces true h
    exact ⟨.char '-' :: used, rfl, fun other hother => hstands other hother⟩
  · have hread : ∀ src : Source, src.head? ≠ some (.char '-') → read src = readUnsigned false src := by
      intro src hsrc
      unfold read
      split
      · exact absurd rfl hsrc
      · rfl
    rw [hread src hminus] at h
    obtain ⟨used, rfl, hstands⟩ := readUnsigned_takesPieces false h
    refine ⟨used, rfl, fun other hother => ?_⟩
    cases used with
    | nil => cases hstands [] ends_nil
    | cons t used => exact (hread (t :: used ++ other) hminus).trans (hstands other hother)

end Scaled

/-! ## Words and strings -/

namespace Json

theorem readWord_pieces {α : Type} {value a : α} {cs : List Char} {src rest : Source}
    (h : readWord value cs src = .ok (a, rest)) :
    src = ofChars cs ++ rest ∧ ∀ other, readWord value cs (ofChars cs ++ other) = .ok (a, other) := by
  induction cs generalizing src with
  | nil =>
    cases h
    exact ⟨rfl, fun _ => rfl⟩
  | cons c cs ih =>
    cases src with
    | nil => cases h
    | cons s src =>
      simp only [readWord] at h
      by_cases hs : s = .char c
      · rw [if_pos hs] at h
        obtain ⟨hsrc, hother⟩ := ih h
        refine ⟨by rw [hs, hsrc]; rfl, fun other => ?_⟩
        simp only [List.map_cons, List.cons_append, readWord, if_true]
        exact hother other
      · rw [if_neg hs] at h
        cases h

/-- The same symbols are taken for the same value, whatever follows. -/
def StandsAlone {α : Type} (read : Source → Except Fault (Read α)) (src : Source) (a : α)
    (rest : Source) : Prop :=
  ∃ used, src = used ++ rest ∧ ∀ other, read (used ++ other) = .ok (a, other)

theorem readUnit_pieces {src rest : Source} {u : Nat} (h : readUnit src = .ok (u, rest)) :
    StandsAlone readUnit src u rest := by
  unfold readUnit at h
  split at h
  · cases h
  · rename_i hwidth
    split at h
    · rename_i a b c d tail
      refine ⟨[a, b, c, d], ?_, fun other => ?_⟩
      · split at h
        · cases h
          rfl
        · cases h
      · unfold readUnit
        have hwidth' : ¬ Source.width (([a, b, c, d] ++ other).take 4) < 4 := hwidth
        rw [if_neg hwidth']
        simp only [List.cons_append, List.nil_append]
        split at h
        · cases h
          rfl
        · cases h
    · cases h

theorem readLowUnit_pieces {src rest : Source} {u : Nat} (h : readLowUnit src = .ok (u, rest)) :
    StandsAlone readLowUnit src u rest := by
  unfold readLowUnit at h
  split at h
  · cases h
  · cases h
  · obtain ⟨⟨low, behind⟩, hunit, hthen⟩ := bind_eq_ok h
    obtain ⟨used, rfl, hstands⟩ := readUnit_pieces hunit
    by_cases hlow : 0xDC00 ≤ low ∧ low ≤ 0xDFFF
    · simp only [if_pos hlow] at hthen
      cases hthen
      refine ⟨.char '\\' :: .char 'u' :: used, rfl, fun other => ?_⟩
      simp only [List.cons_append, readLowUnit, hstands other, bind_ok, if_pos hlow]
    · simp only [if_neg hlow] at hthen
      cases hthen
  · cases h

theorem readUnits_pieces {src rest : Source} {c : Char} (h : readUnits src = .ok (c, rest)) :
    StandsAlone readUnits src c rest := by
  obtain ⟨⟨unit, behind⟩, hunit, hthen⟩ := bind_eq_ok h
  obtain ⟨used, rfl, hstands⟩ := readUnit_pieces hunit
  by_cases hlow : 0xDC00 ≤ unit ∧ unit ≤ 0xDFFF
  · simp only [if_pos hlow] at hthen
    cases hthen
  by_cases hhigh : 0xD800 ≤ unit ∧ unit ≤ 0xDBFF
  · simp only [if_neg hlow, if_pos hhigh] at hthen
    obtain ⟨⟨low, behind'⟩, hsecond, hlast⟩ := bind_eq_ok hthen
    obtain ⟨used', rfl, hstands'⟩ := readLowUnit_pieces hsecond
    obtain ⟨rfl, rfl⟩ := Prod.mk.inj (Except.ok.inj hlast)
    refine ⟨used ++ used', by rw [List.append_assoc], fun other => ?_⟩
    simp only [List.append_assoc, readUnits, hstands, bind_ok, if_neg hlow, if_pos hhigh,
      hstands']
  · simp only [if_neg hlow, if_neg hhigh] at hthen
    cases hthen
    refine ⟨used, rfl, fun other => ?_⟩
    simp only [readUnits, hstands, bind_ok, if_neg hlow, if_neg hhigh]

theorem readEscape_letters {l : Char} (hl : l ≠ 'u') (src : Source) :
    readEscape (.char l :: src) =
      match ofLetter? l with
      | some c => .ok (c, src)
      | none => .error .invalidEscape := by
  unfold readEscape
  split
  · rename_i heq; cases heq
  · rename_i heq
    cases heq
    exact absurd rfl hl
  · rename_i heq
    cases heq
    rfl
  · rename_i heq; cases heq

theorem readEscape_pieces {src rest : Source} {c : Char} (h : readEscape src = .ok (c, rest)) :
    StandsAlone readEscape src c rest := by
  cases src with
  | nil => cases h
  | cons t src =>
    cases t with
    | stray b => cases h
    | char l =>
      by_cases hl : l = 'u'
      · subst hl
        obtain ⟨used, rfl, hstands⟩ := readUnits_pieces h
        exact ⟨.char 'u' :: used, rfl, hstands⟩
      · rw [readEscape_letters hl] at h
        cases hletter : ofLetter? l with
        | none =>
          rw [hletter] at h
          cases h
        | some c =>
          rw [hletter] at h
          cases h
          refine ⟨[.char l], rfl, fun other => ?_⟩
          rw [List.singleton_append, readEscape_letters hl, hletter]

/-- A string, behind its opening quote. -/
theorem readString_pieces {n : Nat} {done : List Char} {clean : Bool} {src rest : Source}
    {s : String} (h : readString n done clean src = .ok (s, rest)) :
    ∃ used, src = used ++ rest ∧ ∀ m, used.length ≤ m → ∀ other,
      readString m done clean (used ++ other) = .ok (s, other) := by
  induction n generalizing done clean src with
  | zero => cases h
  | succ n ih =>
    cases src with
    | nil => cases h
    | cons t src =>
      cases t with
      | stray b =>
        obtain ⟨used, rfl, hstands⟩ := ih h
        refine ⟨.stray b :: used, rfl, fun m hm other => ?_⟩
        obtain ⟨m, rfl⟩ : ∃ k, m = k + 1 := ⟨m - 1, by simp at hm; omega⟩
        exact hstands m (by simpa using hm) other
      | char c =>
        by_cases hquote : c = '"'
        · subst hquote
          cases clean with
          | false => simp [readString] at h
          | true =>
            cases h
            refine ⟨[.char '"'], rfl, fun m hm other => ?_⟩
            obtain ⟨m, rfl⟩ : ∃ k, m = k + 1 := ⟨m - 1, by simp at hm; omega⟩
            rfl
        by_cases hback : c = '\\'
        · subst hback
          simp only [readString, if_neg hquote, if_true] at h
          obtain ⟨⟨c, behind⟩, hescape, hthen⟩ := bind_eq_ok h
          obtain ⟨used, rfl, hone⟩ := readEscape_pieces hescape
          obtain ⟨used', rfl, hstands⟩ := ih hthen
          refine ⟨.char '\\' :: (used ++ used'), by simp, fun m hm other => ?_⟩
          obtain ⟨m, rfl⟩ : ∃ k, m = k + 1 := ⟨m - 1, by simp at hm; omega⟩
          simp only [List.cons_append, List.append_assoc, readString, if_neg hquote, if_true,
            hone, bind_ok]
          exact hstands m (by simp at hm; omega) other
        by_cases hcontrol : c.toNat < 0x20
        · simp only [readString, if_neg hquote, if_neg hback, if_pos hcontrol] at h
          cases h
        · simp only [readString, if_neg hquote, if_neg hback, if_neg hcontrol] at h
          obtain ⟨used, rfl, hstands⟩ := ih h
          refine ⟨.char c :: used, rfl, fun m hm other => ?_⟩
          obtain ⟨m, rfl⟩ : ∃ k, m = k + 1 := ⟨m - 1, by simp at hm; omega⟩
          simp only [List.cons_append, readString, if_neg hquote, if_neg hback, if_neg hcontrol]
          exact hstands m (by simpa using hm) other

/-! ## Blanks and marks -/

/-- A mark, with the blanks in front of it. -/
theorem mark_pieces {src rest : Source} {s : Symbol} (h : skipBlank src = s :: rest) :
    ∃ used, src = used ++ rest ∧ used ≠ [] ∧ ∀ other, skipBlank (used ++ other) = s :: other := by
  obtain ⟨bs, -, hsrc, hskip⟩ := exists_blank src
  refine ⟨bs ++ [s], by rw [List.append_assoc, List.singleton_append, ← h]; exact hsrc, by simp,
    fun other => ?_⟩
  rw [List.append_assoc, hskip, List.singleton_append, skipBlank_cons (skipBlank_head h)]

/-- What stands behind an item or a member does not continue a number. -/
theorem ends_of_skipBlank {src behind : Source} {c : Char} (h : skipBlank src = .char c :: behind)
    (hc : c = ',' ∨ c = ']' ∨ c = '\x7d') : Ends src := by
  obtain ⟨bs, hbs, hsrc, -⟩ := exists_blank src
  rw [hsrc, h]
  cases bs with
  | nil => exact ends_mark hc behind
  | cons b bs =>
    have hb := hbs b List.mem_cons_self
    cases b with
    | stray b => cases hb
    | char b =>
      simp only [Symbol.isBlank, decide_eq_true_eq] at hb
      refine ends_cons ?_ ?_ ?_ ?_ <;> rcases hb with rfl | rfl | rfl | rfl <;> decide

theorem readColon_pieces {src rest : Source} (h : readColon src = .ok rest) :
    ∃ used, src = used ++ rest ∧ ∀ other, readColon (used ++ other) = .ok other := by
  unfold readColon at h
  cases hskip : skipBlank src with
  | nil => rw [hskip] at h; cases h
  | cons s behind =>
    simp only [hskip] at h
    by_cases hs : s = .char ':'
    · rw [if_pos hs] at h
      cases h
      obtain ⟨used, hsrc, -, hused⟩ := mark_pieces hskip
      refine ⟨used, hsrc, fun other => ?_⟩
      simp only [readColon, hused, if_pos hs]
    · rw [if_neg hs] at h
      cases h

/-- What stands where the next item is looked for. -/
theorem nextItem_eq_ok {first : Bool} {src : Source} {r : Source ⊕ Source} :
    nextItem first src = .ok r ↔
      (∃ rest, skipBlank src = .char ']' :: rest ∧ r = .inr rest) ∨
      (first = true ∧ ∃ s rest, skipBlank src = s :: rest ∧ s ≠ .char ']' ∧ r = .inl (s :: rest)) ∨
      (first = false ∧ ∃ behind s rest, skipBlank src = .char ',' :: behind ∧
        skipBlank behind = s :: rest ∧ s ≠ .char ']' ∧ r = .inl (s :: rest)) := by
  have hcomma : Symbol.char ',' ≠ .char ']' := by decide
  unfold nextItem
  constructor
  · intro h
    split at h
    · cases h
    · rename_i s rest hskip
      by_cases hclose : s = .char ']'
      · rw [if_pos hclose] at h
        cases h
        exact .inl ⟨rest, hclose ▸ hskip, rfl⟩
      rw [if_neg hclose] at h
      cases first with
      | true =>
        rw [if_pos rfl] at h
        cases h
        exact .inr (.inl ⟨rfl, s, rest, hskip, hclose, rfl⟩)
      | false =>
        rw [if_neg Bool.false_ne_true] at h
        by_cases hmark : s = .char ','
        · rw [if_pos hmark] at h
          split at h
          · cases h
          · rename_i t behind hbehind
            by_cases ht : t = .char ']'
            · rw [if_pos ht] at h
              cases h
            · rw [if_neg ht] at h
              cases h
              exact .inr (.inr ⟨rfl, rest, t, behind, hmark ▸ hskip, hbehind, ht, rfl⟩)
        · rw [if_neg hmark] at h
          cases h
  · rintro (⟨rest, hskip, rfl⟩ | ⟨rfl, s, rest, hskip, hclose, rfl⟩ |
      ⟨rfl, behind, s, rest, hskip, hbehind, hs, rfl⟩)
    · rw [hskip]
      exact if_pos rfl
    · rw [hskip]
      exact (if_neg hclose).trans (if_pos rfl)
    · simp only [hskip, hbehind, if_neg hcomma, if_neg hs, if_neg Bool.false_ne_true, if_true]

/-- What stands where the next key is looked for. -/
theorem nextKey_eq_ok {first : Bool} {src : Source} {r : Source ⊕ Source} :
    nextKey first src = .ok r ↔
      (∃ rest, skipBlank src = .char '\x7d' :: rest ∧ r = .inr rest) ∨
      (first = true ∧ ∃ rest, skipBlank src = .char '"' :: rest ∧ r = .inl rest) ∨
      (first = false ∧ ∃ behind rest, skipBlank src = .char ',' :: behind ∧
        skipBlank behind = .char '"' :: rest ∧ r = .inl rest) := by
  have hquote : Symbol.char '"' ≠ .char '\x7d' := by decide
  have hcomma : Symbol.char ',' ≠ .char '\x7d' := by decide
  unfold nextKey
  constructor
  · intro h
    split at h
    · cases h
    · rename_i s rest hskip
      by_cases hclose : s = .char '\x7d'
      · rw [if_pos hclose] at h
        cases h
        exact .inl ⟨rest, hclose ▸ hskip, rfl⟩
      rw [if_neg hclose] at h
      cases first with
      | true =>
        rw [if_pos rfl] at h
        by_cases hs : s = .char '"'
        · rw [if_pos hs] at h
          cases h
          exact .inr (.inl ⟨rfl, rest, hs ▸ hskip, rfl⟩)
        · rw [if_neg hs] at h
          cases h
      | false =>
        rw [if_neg Bool.false_ne_true] at h
        by_cases hmark : s = .char ','
        · rw [if_pos hmark] at h
          split at h
          · cases h
          · rename_i t behind hbehind
            by_cases ht : t = .char '"'
            · rw [if_pos ht] at h
              cases h
              exact .inr (.inr ⟨rfl, rest, behind, hmark ▸ hskip, ht ▸ hbehind, rfl⟩)
            · rw [if_neg ht] at h
              split at h <;> cases h
        · rw [if_neg hmark] at h
          cases h
  · rintro (⟨rest, hskip, rfl⟩ | ⟨rfl, rest, hskip, rfl⟩ | ⟨rfl, behind, rest, hskip, hbehind, rfl⟩)
    · rw [hskip]
      exact if_pos rfl
    · simp only [hskip, if_neg hquote, if_true]
    · simp only [hskip, hbehind, if_neg hcomma, if_neg Bool.false_ne_true, if_true]

theorem ends_of_nextItem {src : Source} {r : Source ⊕ Source} (h : nextItem false src = .ok r) :
    Ends src := by
  obtain ⟨rest, hskip, -⟩ | ⟨hfirst, -⟩ | ⟨-, behind, s, rest, hskip, -⟩ := nextItem_eq_ok.mp h
  · exact ends_of_skipBlank hskip (.inr (.inl rfl))
  · cases hfirst
  · exact ends_of_skipBlank hskip (.inl rfl)

theorem ends_of_nextKey {src : Source} {r : Source ⊕ Source} (h : nextKey false src = .ok r) :
    Ends src := by
  obtain ⟨rest, hskip, -⟩ | ⟨hfirst, -⟩ | ⟨-, behind, rest, hskip, -⟩ := nextKey_eq_ok.mp h
  · exact ends_of_skipBlank hskip (.inr (.inr rfl))
  · cases hfirst
  · exact ends_of_skipBlank hskip (.inl rfl)

theorem nextItem_end_pieces {first : Bool} {src rest : Source}
    (h : nextItem first src = .ok (.inr rest)) :
    ∃ used, src = used ++ rest ∧ used ≠ [] ∧
      ∀ other, nextItem first (used ++ other) = .ok (.inr other) := by
  obtain ⟨rest, hskip, heq⟩ | ⟨-, s, rest, -, -, heq⟩ | ⟨-, behind, s, rest, -, -, -, heq⟩ :=
    nextItem_eq_ok.mp h
  · cases heq
    obtain ⟨used, hsrc, hne, hused⟩ := mark_pieces hskip
    exact ⟨used, hsrc, hne, fun other => nextItem_eq_ok.mpr (.inl ⟨other, hused other, rfl⟩)⟩
  · cases heq
  · cases heq

/-- Up to the next item, which starts with the same symbol. -/
theorem nextItem_pieces {first : Bool} {src here : Source}
    (h : nextItem first src = .ok (.inl here)) :
    ∃ used, src = used ++ here ∧ ∀ other, other.head? = here.head? →
      nextItem first (used ++ other) = .ok (.inl other) := by
  obtain ⟨rest, -, heq⟩ | ⟨rfl, s, rest, hskip, hs, heq⟩ |
    ⟨rfl, behind, s, rest, hskip, hbehind, hs, heq⟩ := nextItem_eq_ok.mp h
  · cases heq
  · cases heq
    obtain ⟨bs, -, hsrc, hbs⟩ := exists_blank src
    refine ⟨bs, by rw [← hskip]; exact hsrc, fun other hother => ?_⟩
    obtain ⟨tail, rfl⟩ := List.head?_eq_some_iff.mp hother
    refine nextItem_eq_ok.mpr (.inr (.inl ⟨rfl, s, tail, ?_, hs, rfl⟩))
    rw [hbs, skipBlank_cons (skipBlank_head hskip)]
  · cases heq
    obtain ⟨used, hsrc, -, hused⟩ := mark_pieces hskip
    obtain ⟨bs, -, hbehind', hbs⟩ := exists_blank behind
    refine ⟨used ++ bs, by rw [List.append_assoc, ← hbehind, ← hbehind']; exact hsrc,
      fun other hother => ?_⟩
    obtain ⟨tail, rfl⟩ := List.head?_eq_some_iff.mp hother
    refine nextItem_eq_ok.mpr (.inr (.inr ⟨rfl, bs ++ s :: tail, s, tail, ?_, ?_, hs, rfl⟩))
    · rw [List.append_assoc, hused]
    · rw [hbs, skipBlank_cons (skipBlank_head hbehind)]

theorem nextKey_end_pieces {first : Bool} {src rest : Source}
    (h : nextKey first src = .ok (.inr rest)) :
    ∃ used, src = used ++ rest ∧ used ≠ [] ∧
      ∀ other, nextKey first (used ++ other) = .ok (.inr other) := by
  obtain ⟨rest, hskip, heq⟩ | ⟨-, rest, -, heq⟩ | ⟨-, behind, rest, -, -, heq⟩ :=
    nextKey_eq_ok.mp h
  · cases heq
    obtain ⟨used, hsrc, hne, hused⟩ := mark_pieces hskip
    exact ⟨used, hsrc, hne, fun other => nextKey_eq_ok.mpr (.inl ⟨other, hused other, rfl⟩)⟩
  · cases heq
  · cases heq

/-- Up to the next key, its opening quote included. -/
theorem nextKey_pieces {first : Bool} {src here : Source}
    (h : nextKey first src = .ok (.inl here)) :
    ∃ used, src = used ++ here ∧ used ≠ [] ∧
      ∀ other, nextKey first (used ++ other) = .ok (.inl other) := by
  obtain ⟨rest, -, heq⟩ | ⟨rfl, rest, hskip, heq⟩ | ⟨rfl, behind, rest, hskip, hbehind, heq⟩ :=
    nextKey_eq_ok.mp h
  · cases heq
  · cases heq
    obtain ⟨used, hsrc, hne, hused⟩ := mark_pieces hskip
    exact ⟨used, hsrc, hne,
      fun other => nextKey_eq_ok.mpr (.inr (.inl ⟨rfl, other, hused other, rfl⟩))⟩
  · cases heq
    obtain ⟨used, hsrc, hne, hused⟩ := mark_pieces hskip
    obtain ⟨used', rfl, -, hused'⟩ := mark_pieces hbehind
    refine ⟨used ++ used', by rw [List.append_assoc]; exact hsrc, by simp [hne],
      fun other => nextKey_eq_ok.mpr (.inr (.inr ⟨rfl, used' ++ other, other, ?_, hused' other, rfl⟩))⟩
    rw [List.append_assoc, hused]

/-! ## Values -/

/-- A value of one token stands at any depth. -/
theorem readToken_pieces {n : Nat} {src rest : Source} {json : Json}
    (h : readValue n 0 src = .ok (json, rest)) :
    ∃ used, src = used ++ rest ∧ used ≠ [] ∧ ∀ m, used.length ≤ m → ∀ other, Ends other →
      ∀ d, readValue m d (used ++ other) = .ok (json, other) := by
  unfold readValue at h
  cases hskip : skipBlank src with
  | nil => simp [hskip] at h
  | cons s behind =>
    obtain ⟨mark, hsrc, hne, hmark⟩ := mark_pieces hskip
    cases s with
    | stray b => simp [hskip] at h
    | char c =>
      simp only [hskip] at h
      -- a word: its letters follow the first one
      have hword : ∀ {value : Json} {cs : List Char},
          (∀ m d other, readValue m d (mark ++ other) = readWord value cs other) →
          readWord value cs behind = .ok (json, rest) →
          ∃ used, src = used ++ rest ∧ used ≠ [] ∧ ∀ m, used.length ≤ m → ∀ other, Ends other →
            ∀ d, readValue m d (used ++ other) = .ok (json, other) := by
        intro value cs hvalue hread
        obtain ⟨hbehind, hother⟩ := readWord_pieces hread
        refine ⟨mark ++ ofChars cs, by rw [List.append_assoc, ← hbehind]; exact hsrc, by simp [hne],
          fun m _ other _ d => ?_⟩
        rw [List.append_assoc, hvalue]
        exact hother other
      by_cases hn : c = 'n'
      · subst hn
        exact hword (fun m d other => by unfold readValue; rw [hmark]; rfl) h
      by_cases ht : c = 't'
      · subst ht
        exact hword (fun m d other => by unfold readValue; rw [hmark]; rfl) h
      by_cases hf : c = 'f'
      · subst hf
        exact hword (fun m d other => by unfold readValue; rw [hmark]; rfl) h
      by_cases hq : c = '"'
      · subst hq
        simp only [if_neg hn, if_neg ht, if_neg hf, if_true] at h
        obtain ⟨⟨s, next⟩, hstring, hthen⟩ := bind_eq_ok h
        cases hthen
        obtain ⟨used, rfl, hstands⟩ := readString_pieces hstring
        refine ⟨mark ++ used, by rw [List.append_assoc]; exact hsrc, by simp [hne],
          fun m hm other _ d => ?_⟩
        rw [List.length_append] at hm
        unfold readValue
        rw [List.append_assoc, hmark]
        simp only [if_neg hn, if_neg ht, if_neg hf, if_true,
          hstands m (by omega) other, bind_ok]
      by_cases hd : c = '-' ∨ c.isDigit = true
      · simp only [if_neg hn, if_neg ht, if_neg hf, if_neg hq, if_pos hd] at h
        obtain ⟨⟨x, next⟩, hnumber, hthen⟩ := bind_eq_ok h
        cases hthen
        obtain ⟨used, hused, hstands⟩ := Scaled.read_takesPieces hnumber
        obtain ⟨bs, -, hblank, hbs⟩ := exists_blank src
        cases used with
        | nil => cases hstands [] ends_nil
        | cons s used =>
          obtain ⟨rfl, rfl⟩ : s = .char c ∧ behind = used ++ next := by
            cases hused
            exact ⟨rfl, rfl⟩
          refine ⟨bs ++ .char c :: used, ?_, by simp, fun m _ other hother d => ?_⟩
          · rw [hblank, hskip, List.append_assoc]
            rfl
          · unfold readValue
            rw [List.append_assoc, hbs, List.cons_append, skipBlank_cons (skipBlank_head hskip)]
            simp only [if_neg hn, if_neg ht, if_neg hf, if_neg hq, if_pos hd]
            rw [← List.cons_append, hstands other hother]
            rfl
      · simp only [if_neg hn, if_neg ht, if_neg hf, if_neg hq, if_neg hd] at h
        split at h
        · cases h
        split at h
        · cases h
        · cases h

/-- The values read at most `depth` levels deep stand for themselves. -/
def ValuesStand (depth : Nat) : Prop :=
  ∀ {n : Nat} {src : Source} {json : Json} {rest : Source},
    readValue n depth src = .ok (json, rest) →
      ∃ used, src = used ++ rest ∧ used ≠ [] ∧ ∀ m, used.length ≤ m → ∀ other, Ends other →
        readValue m depth (used ++ other) = .ok (json, other)

variable {n depth : Nat} {first : Bool} {src rest : Source}

theorem ItemsRead.ends {items : List Json} (h : ItemsRead n depth false src items rest) :
    Ends src := by
  cases h with
  | close hnext => exact ends_of_nextItem hnext
  | item hnext _ _ => exact ends_of_nextItem hnext

theorem MembersRead.ends {ms : List (String × Json)} (h : MembersRead n depth false src ms rest) :
    Ends src := by
  cases h with
  | close hnext => exact ends_of_nextKey hnext
  | member hnext _ _ _ _ => exact ends_of_nextKey hnext

theorem ItemsRead.pieces (hvalues : ValuesStand depth) {items : List Json}
    (h : ItemsRead n depth first src items rest) :
    ∃ used, src = used ++ rest ∧ items.length < used.length ∧ ∀ m, used.length ≤ m → ∀ other,
      ItemsRead m depth first (used ++ other) items other := by
  induction h with
  | close hnext =>
    obtain ⟨used, hsrc, hne, hused⟩ := nextItem_end_pieces hnext
    exact ⟨used, hsrc, List.length_pos_iff.mpr hne, fun m _ other => .close (hused other)⟩
  | item hnext hread _ ih =>
    obtain ⟨front, rfl, hfront⟩ := nextItem_pieces hnext
    obtain ⟨value, rfl, hne, hvalue⟩ := hvalues hread
    obtain ⟨used, rfl, hlength, hused⟩ := ih
    refine ⟨front ++ (value ++ used), by simp, ?_, fun m hm other => ?_⟩
    · have := List.length_pos_iff.mpr hne
      simp only [List.length_cons, List.length_append]
      omega
    · simp only [List.length_append] at hm
      have hrest := hused m (by omega) other
      rw [List.append_assoc, List.append_assoc]
      refine .item (hfront _ ?_) (hvalue m (by omega) _ hrest.ends) hrest
      rw [List.head?_append_of_ne_nil value hne, List.head?_append_of_ne_nil value hne]

theorem MembersRead.pieces (hvalues : ValuesStand depth) {ms : List (String × Json)}
    (h : MembersRead n depth first src ms rest) :
    ∃ used, src = used ++ rest ∧ ms.length < used.length ∧ ∀ m, used.length ≤ m → ∀ other,
      MembersRead m depth first (used ++ other) ms other := by
  induction h with
  | close hnext =>
    obtain ⟨used, hsrc, hne, hused⟩ := nextKey_end_pieces hnext
    exact ⟨used, hsrc, List.length_pos_iff.mpr hne, fun m _ other => .close (hused other)⟩
  | member hnext hkey hcolon hread _ ih =>
    obtain ⟨front, rfl, hne, hfront⟩ := nextKey_pieces hnext
    obtain ⟨key, rfl, hquoted⟩ := readString_pieces hkey
    obtain ⟨colon, rfl, hmark⟩ := readColon_pieces hcolon
    obtain ⟨value, rfl, -, hvalue⟩ := hvalues hread
    obtain ⟨used, rfl, hlength, hused⟩ := ih
    refine ⟨front ++ (key ++ (colon ++ (value ++ used))), by simp, ?_, fun m hm other => ?_⟩
    · have := List.length_pos_iff.mpr hne
      simp only [List.length_cons, List.length_append]
      omega
    · simp only [List.length_append] at hm
      have hrest := hused m (by omega) other
      simp only [List.append_assoc]
      exact .member (hfront _) (hquoted m (by omega) _) (hmark _)
        (hvalue m (by omega) _ hrest.ends) hrest

theorem foldlM_cons_some {α : Type} (as done : List α) :
    as.foldlM (fun done a => some (a :: done)) done = some (as.reverse ++ done) := by
  induction as generalizing done with
  | nil => rfl
  | cons a as ih =>
    rw [List.foldlM_cons]
    refine (ih (a :: done)).trans ?_
    simp

theorem readValue_of_items {items : List Json} {behind : Source}
    (hskip : skipBlank src = .char '[' :: behind) (hlength : items.length < n)
    (h : ItemsRead n depth true behind items rest) :
    readValue n (depth + 1) src = .ok (.array items, rest) := by
  have hitem : ∀ acc {here json next}, readValue n depth here = .ok (json, next) →
      (readItem (readValue n depth) acc here).toOption = (some (json :: acc)).map (·, next) := by
    intro acc here json next hread
    simp only [readItem, hread]
    rfl
  have hfold := h.fold hitem hlength []
  rw [foldlM_cons_some, List.append_nil] at hfold
  unfold readValue
  rw [hskip]
  simp only [Char.reduceEq, if_false, if_true, Char.reduceIsDigit, or_self, Bool.false_eq_true,
    eq_ok_of_toOption hfold, bind_ok, List.reverse_reverse]

theorem readValue_of_members {ms : List (String × Json)} {behind : Source}
    (hskip : skipBlank src = .char '\x7b' :: behind) (hlength : ms.length < n)
    (h : MembersRead n depth true behind ms rest) :
    readValue n (depth + 1) src = .ok (.object ms, rest) := by
  have hmember : ∀ acc key {colon value json next}, readColon colon = .ok value →
      readValue n depth value = .ok (json, next) →
      (readMember (readValue n depth) acc key colon).toOption =
        (some ((key, json) :: acc)).map (·, next) := by
    intro acc key colon value json next hcolon hread
    simp only [readMember, hcolon, bind_ok, hread]
    rfl
  have hfold : (foldMembers n (readMember (readValue n depth)) n true [] behind).toOption =
      (ms.foldlM (fun done m => some (m :: done)) []).map (·, rest) :=
    h.fold (fun acc key => hmember acc key) hlength []
  rw [foldlM_cons_some, List.append_nil] at hfold
  unfold readValue
  rw [hskip]
  simp only [Char.reduceEq, if_false, if_true, Char.reduceIsDigit, or_self, Bool.false_eq_true,
    eq_ok_of_toOption hfold, bind_ok, List.reverse_reverse]

/-- Every value that was read stands for itself. -/
theorem valuesStand : ∀ depth : Nat, ValuesStand depth
  | 0 => by
    intro h
    obtain ⟨used, hsrc, hne, hused⟩ := readToken_pieces h
    exact ⟨used, hsrc, hne, fun m hm other hother => hused m hm other hother 0⟩
  | depth + 1 => by
    intro h
    obtain ⟨-, -, hany⟩ | ⟨d, behind, items, hd, rfl, hskip, -, hitems⟩ |
      ⟨d, behind, ms, hd, rfl, hskip, -, hms⟩ := readValue_cases h
    · obtain ⟨used, hsrc, hne, hused⟩ := readToken_pieces (hany 0)
      exact ⟨used, hsrc, hne, fun m hm other hother => hused m hm other hother (depth + 1)⟩
    · cases hd
      obtain ⟨mark, rfl, hne, hmark⟩ := mark_pieces hskip
      obtain ⟨used, rfl, hlength, hused⟩ := hitems.pieces (valuesStand depth)
      refine ⟨mark ++ used, by rw [List.append_assoc], by simp [hne], fun m hm other _ => ?_⟩
      rw [List.length_append] at hm
      refine readValue_of_items ?_ (by omega) (hused m (by omega) other)
      rw [List.append_assoc, hmark]
    · cases hd
      obtain ⟨mark, rfl, hne, hmark⟩ := mark_pieces hskip
      obtain ⟨used, rfl, hlength, hused⟩ := hms.pieces (valuesStand depth)
      refine ⟨mark ++ used, by rw [List.append_assoc], by simp [hne], fun m hm other _ => ?_⟩
      rw [List.length_append] at hm
      refine readValue_of_members ?_ (by omega) (hused m (by omega) other)
      rw [List.append_assoc, hmark]

end Json

end SceneScript
