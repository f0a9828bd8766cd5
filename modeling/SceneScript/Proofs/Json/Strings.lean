import SceneScript.Json.Text
import SceneScript.Json.Writer

/-! A written string reads back as it was. A string written by the writer holds characters only,
each spelled by itself, by a letter after a backslash or by four hexadecimal digits; the reader
undoes each spelling alone, so the induction is on the string and what was read so far. -/

namespace SceneScript

/-- Characters as a text to be read. -/
abbrev Source.ofChars (cs : List Char) : Source := cs.map .char

theorem Source.ofChars_cons (c : Char) (cs : List Char) :
    ofChars (c :: cs) = .char c :: ofChars cs := rfl

theorem Source.ofChars_append (cs ds : List Char) :
    ofChars (cs ++ ds) = ofChars cs ++ ofChars ds := List.map_append

namespace Json

open Source

theorem ofLetter?_of_letter? {c l : Char} (h : letter? c = some l) :
    ofLetter? l = some c ∧ l ≠ 'u' := by
  unfold letter? at h
  split at h <;> cases h <;> decide

theorem hexDigit?_digitChar : ∀ n < 16, hexDigit? (.char (Nat.digitChar n)) = some n := by
  decide

theorem utf8Size_digitChar : ∀ n < 16, (Nat.digitChar n).utf8Size = 1 := by decide

theorem readUnit_hexQuad {n : Nat} (hn : n < 256) (rest : Source) :
    readUnit (ofChars (hexQuad n) ++ rest) = .ok (n, rest) := by
  have hhigh := hexDigit?_digitChar (n / 16) (by omega)
  have hlow := hexDigit?_digitChar (n % 16) (by omega)
  have hzero : hexDigit? (.char '0') = some 0 := by decide
  have hwidth : ¬ Source.width ((ofChars (hexQuad n) ++ rest).take 4) < 4 := by
    simp [hexQuad, Source.width, Symbol.width, utf8Size_digitChar (n / 16) (by omega),
      utf8Size_digitChar (n % 16) (by omega), show ('0' : Char).utf8Size = 1 from by decide]
  unfold readUnit
  rw [if_neg hwidth]
  simp only [hexQuad, List.map_cons, List.map_nil, List.cons_append, List.nil_append, hhigh, hlow,
    hzero]
  rw [show ((0 * 16 + 0) * 16 + n / 16) * 16 + n % 16 = n by omega]

theorem readEscape_hexQuad {c : Char} (hc : c.toNat < 0x20) (rest : Source) :
    readEscape (ofChars ('u' :: hexQuad c.toNat) ++ rest) = .ok (c, rest) := by
  have hunit := readUnit_hexQuad (n := c.toNat) (by omega) rest
  simp only [ofChars, List.map_cons, List.cons_append, readEscape]
  simp only [readUnits, hunit, bind, Except.bind]
  rw [if_neg (by omega), if_neg (by omega), Char.ofNat_toNat]

theorem readEscape_letter {c l : Char} (h : letter? c = some l) (rest : Source) :
    readEscape (.char l :: rest) = .ok (c, rest) := by
  obtain ⟨hl, hu⟩ := ofLetter?_of_letter? h
  unfold readEscape
  split
  · simp_all
  · simp_all
  · simp_all
  · simp_all

/-- One written character is one character read. -/
theorem readString_escaped (n : Nat) (done : List Char) (clean : Bool) (c : Char)
    (rest : Source) :
    readString (n + 1) done clean (ofChars (escaped c) ++ rest) =
      readString n (c :: done) clean rest := by
  unfold escaped
  cases hl : letter? c with
  | some l =>
    have hback : ('\\' : Char) ≠ '"' := by decide
    simp only [ofChars, List.map_cons, List.map_nil, List.cons_append, List.nil_append,
      readString, if_neg hback, if_true, readEscape_letter hl, bind, Except.bind]
  | none =>
    have hq : c ≠ '"' := by rintro rfl; simp [letter?] at hl
    have hb : c ≠ '\\' := by rintro rfl; simp [letter?] at hl
    by_cases hc : c.toNat < 0x20
    · have hback : ('\\' : Char) ≠ '"' := by decide
      have hread := readEscape_hexQuad hc rest
      simp only [ofChars, List.map_cons, List.cons_append] at hread
      simp only [if_pos hc, ofChars, List.map_cons, List.cons_append, readString, if_neg hback,
        if_true, hread, bind, Except.bind]
    · simp only [ofChars, List.map_cons, List.map_nil, List.cons_append, List.nil_append,
        if_neg hc,
        readString, if_neg hq, if_neg hb]

theorem readString_flatMap_escaped (cs : List Char) (n : Nat) (done : List Char) (rest : Source)
    (hn : cs.length < n) :
    readString n done true (ofChars (cs.flatMap escaped) ++ .char '"' :: rest) =
      .ok (.ofList (done.reverse ++ cs), rest) := by
  induction cs generalizing n done with
  | nil =>
    obtain ⟨m, rfl⟩ : ∃ m, n = m + 1 := ⟨n - 1, by simp at hn; omega⟩
    simp [readString]
  | cons c cs ih =>
    obtain ⟨m, rfl⟩ : ∃ m, n = m + 1 := ⟨n - 1, by simp at hn; omega⟩
    have htail := ih m (c :: done) (by simpa using hn)
    simp only [ofChars, List.flatMap_cons, List.map_append, List.append_assoc] at htail ⊢
    rw [readString_escaped, htail, List.reverse_cons, List.append_assoc, List.singleton_append]

/-- The reader takes back what the writer quoted, behind the opening quote. -/
theorem readString_quoted (s : String) (n : Nat) (rest : Source) (hn : s.length < n) :
    readString n [] true ((ofChars (quoted s)).tail ++ rest) = .ok (s, rest) := by
  have h := readString_flatMap_escaped s.toList n [] rest (by rwa [String.length_toList])
  simpa [quoted, ofChars] using h

theorem escaped_ne_nil (c : Char) : escaped c ≠ [] := by
  unfold escaped
  split
  · simp
  · split <;> simp

theorem length_le_quoted (s : String) : s.length + 2 ≤ (quoted s).length := by
  have h : ∀ cs : List Char, cs.length ≤ (cs.flatMap escaped).length := by
    intro cs
    induction cs with
    | nil => simp
    | cons c cs ih =>
      have hc := List.length_pos_iff.mpr (escaped_ne_nil c)
      simp only [List.flatMap_cons, List.length_append, List.length_cons]
      omega
  have hs := h s.toList
  simp only [quoted, List.cons_append, List.length_cons, List.length_append, List.length_nil]
  simp only [String.length_toList] at hs
  omega

end Json

end SceneScript
