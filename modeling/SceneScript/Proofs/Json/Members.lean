import Mathlib.Data.List.Forall2
import SceneScript.Proofs.Json.Pieces

/-! The text of an object as the texts of its members, commas between them. Each member's text is
read the same wherever it stands, so the text of an object can be taken apart at its commas, and a
member put in anywhere is read there while the others are read as before. -/

namespace SceneScript

open Source

namespace Json

/-! ## Members as symbols -/

/-- The symbols are read as the member wherever one stands in an object. -/
def MemberStands (depth : Nat) (t : Source) (m : String × Json) : Prop :=
  ∀ n, t.length ≤ n → ∀ other ms rest, MembersRead n depth false other ms rest →
    MembersRead n depth true (t ++ other) (m :: ms) rest ∧
      MembersRead n depth false (.char ',' :: (t ++ other)) (m :: ms) rest

/-- The members behind the first one, each with its comma. -/
def tailSource : List Source → Source
  | [] => []
  | t :: ts => .char ',' :: (t ++ tailSource ts)

/-- What stands between the braces. -/
def bodySource : List Source → Source
  | [] => []
  | t :: ts => t ++ tailSource ts

variable {n depth : Nat} {src rest : Source}

theorem nextKey_blank {bs : Source} (hbs : ∀ other, skipBlank (bs ++ other) = skipBlank other)
    (first : Bool) (other : Source) : nextKey first (bs ++ other) = nextKey first other := by
  unfold nextKey
  rw [hbs]

theorem MembersRead.blank {bs : Source} (hbs : ∀ other, skipBlank (bs ++ other) = skipBlank other)
    {first : Bool} {ms : List (String × Json)} (h : MembersRead n depth first src ms rest) :
    MembersRead n depth first (bs ++ src) ms rest := by
  cases h with
  | close hnext => exact .close ((nextKey_blank hbs first src).trans hnext)
  | member hnext hkey hcolon hread hrest =>
    exact .member ((nextKey_blank hbs first src).trans hnext) hkey hcolon hread hrest

/-- A key, its colon and its value make a member, blanks behind it included. -/
theorem memberStands_of_pieces {front key colon value bs : Source} {k : String} {json : Json}
    (hfront : ∀ other, skipBlank (front ++ other) = .char '"' :: other)
    (hkey : ∀ m, key.length ≤ m → ∀ other, readString m [] true (key ++ other) = .ok (k, other))
    (hcolon : ∀ other, readColon (colon ++ other) = .ok other)
    (hvalue : ∀ m, value.length ≤ m → ∀ other, Ends other →
      readValue m depth (value ++ other) = .ok (json, other))
    (hbs : ∀ other, skipBlank (bs ++ other) = skipBlank other) :
    MemberStands depth (front ++ (key ++ (colon ++ (value ++ bs)))) (k, json) := by
  intro n hn other ms rest h
  simp only [List.length_append] at hn
  have hrest := h.blank hbs
  have hread := hvalue n (by omega) _ hrest.ends
  have hquoted := hkey n (by omega) (colon ++ (value ++ (bs ++ other)))
  simp only [List.append_assoc]
  constructor
  · exact .member (nextKey_eq_ok.mpr (.inr (.inl ⟨rfl, _, hfront _, rfl⟩))) hquoted (hcolon _) hread
      hrest
  · have hcomma : (Symbol.char ',').isBlank = false := rfl
    exact .member (nextKey_eq_ok.mpr
      (.inr (.inr ⟨rfl, _, _, skipBlank_cons hcomma _, hfront _, rfl⟩))) hquoted (hcolon _) hread
      hrest

theorem MemberStands.blank {t bs : Source} {m : String × Json} (h : MemberStands depth t m)
    (hbs : ∀ other, skipBlank (bs ++ other) = skipBlank other) :
    MemberStands depth (t ++ bs) m := by
  intro n hn other ms rest hms
  rw [List.length_append] at hn
  rw [List.append_assoc]
  exact h n (by omega) _ ms rest (hms.blank hbs)

/-! ## Taken apart -/

/-- An object that was read is one text for each member. Blanks in front of a comma or of the end
belong to the member before them; in front of an object's first member there is nothing else. -/
theorem MembersRead.exists_texts {first : Bool} {ms : List (String × Json)}
    (h : MembersRead n depth first src ms rest) :
    (first = false → ∃ bs ts, (∀ s ∈ bs, s.isBlank = true) ∧
      src = bs ++ (tailSource ts ++ .char '\x7d' :: rest) ∧
      List.Forall₂ (MemberStands depth) ts ms) ∧
    (first = true → ∃ ts bs, (∀ s ∈ bs, s.isBlank = true) ∧
      src = bodySource ts ++ (bs ++ .char '\x7d' :: rest) ∧
      List.Forall₂ (MemberStands depth) ts ms) := by
  induction h with
  | @close first src rest hnext =>
    obtain ⟨rest', hskip, heq⟩ | ⟨-, rest', -, heq⟩ | ⟨-, behind, rest', -, -, heq⟩ :=
      nextKey_eq_ok.mp hnext
    · cases heq
      obtain ⟨bs, hbs, hsrc, -⟩ := exists_blank src
      rw [hskip] at hsrc
      exact ⟨fun _ => ⟨bs, [], hbs, hsrc, .nil⟩, fun _ => ⟨[], bs, hbs, hsrc, .nil⟩⟩
    · cases heq
    · cases heq
  | @member first src here colon value next rest k json ms hnext hkey hcolon hread _ ih =>
    obtain ⟨bs, ts, hbs, hnextSrc, hts⟩ := ih.1 rfl
    obtain ⟨key, hkeySrc, hquoted⟩ := readString_pieces hkey
    obtain ⟨mark, hcolonSrc, hmark⟩ := readColon_pieces hcolon
    obtain ⟨piece, hvalueSrc, -, hvalue⟩ := valuesStand depth hread
    have hmember : ∀ front, (∀ other, skipBlank (front ++ other) = .char '"' :: other) →
        MemberStands depth (front ++ (key ++ (mark ++ (piece ++ bs)))) (k, json) := fun front hfront =>
      memberStands_of_pieces hfront hquoted hmark hvalue (skipBlank_blank hbs)
    obtain ⟨rest', -, heq⟩ | ⟨rfl, rest', hskip, heq⟩ | ⟨rfl, behind, rest', hskip, hbehind, heq⟩ :=
      nextKey_eq_ok.mp hnext
    · cases heq
    · cases heq
      obtain ⟨front, hsrc, -, hfront⟩ := mark_pieces hskip
      refine ⟨nofun, fun _ => ⟨_, [], List.forall_mem_nil _, ?_, .cons (hmember front hfront) hts⟩⟩
      rw [hsrc, hkeySrc, hcolonSrc, hvalueSrc, hnextSrc]
      simp [bodySource]
    · cases heq
      obtain ⟨bs', hbs', hsrc, -⟩ := exists_blank src
      obtain ⟨front, hbehindSrc, -, hfront⟩ := mark_pieces hbehind
      refine ⟨fun _ => ⟨bs', _, hbs', ?_, .cons (hmember front hfront) hts⟩, nofun⟩
      rw [hsrc, hskip, hbehindSrc, hkeySrc, hcolonSrc, hvalueSrc, hnextSrc]
      simp [tailSource]

/-! ## Put together -/

theorem membersRead_tail {ts : List Source} {ms : List (String × Json)}
    (h : List.Forall₂ (MemberStands depth) ts ms) (hn : ∀ t ∈ ts, t.length ≤ n) {bs : Source}
    (hbs : ∀ s ∈ bs, s.isBlank = true) :
    MembersRead n depth false (tailSource ts ++ (bs ++ .char '\x7d' :: rest)) ms rest := by
  induction h with
  | nil =>
    have hclose : (Symbol.char '\x7d').isBlank = false := rfl
    refine .close (nextKey_eq_ok.mpr (.inl ⟨rest, ?_, rfl⟩))
    rw [tailSource, List.nil_append, skipBlank_blank hbs, skipBlank_cons hclose]
  | @cons t m ts ms ht _ ih =>
    have hrest := ih fun t ht => hn t (List.mem_cons_of_mem _ ht)
    rw [tailSource, List.cons_append, List.append_assoc]
    exact (ht n (hn t List.mem_cons_self) _ ms rest hrest).2

theorem membersRead_body {ts : List Source} {ms : List (String × Json)}
    (h : List.Forall₂ (MemberStands depth) ts ms) (hn : ∀ t ∈ ts, t.length ≤ n) {bs : Source}
    (hbs : ∀ s ∈ bs, s.isBlank = true) :
    MembersRead n depth true (bodySource ts ++ (bs ++ .char '\x7d' :: rest)) ms rest := by
  cases h with
  | nil =>
    have hclose : (Symbol.char '\x7d').isBlank = false := rfl
    refine .close (nextKey_eq_ok.mpr (.inl ⟨rest, ?_, rfl⟩))
    rw [bodySource, List.nil_append, skipBlank_blank hbs, skipBlank_cons hclose]
  | @cons t m ts ms ht hts =>
    have hrest : MembersRead n depth false (tailSource ts ++ (bs ++ .char '\x7d' :: rest)) ms rest :=
      membersRead_tail hts (fun t ht => hn t (List.mem_cons_of_mem _ ht)) hbs
    rw [bodySource, List.append_assoc]
    exact (ht n (hn t List.mem_cons_self) _ ms rest hrest).1

theorem length_le_tailSource {t : Source} {ts : List Source} (h : t ∈ ts) :
    t.length ≤ (tailSource ts).length := by
  induction ts with
  | nil => cases h
  | cons u ts ih =>
    simp only [tailSource, List.length_cons, List.length_append]
    rcases List.mem_cons.mp h with rfl | h
    · omega
    · have := ih h
      omega

theorem length_le_bodySource {t : Source} {ts : List Source} (h : t ∈ ts) :
    t.length ≤ (bodySource ts).length := by
  cases ts with
  | nil => cases h
  | cons u ts =>
    simp only [bodySource, List.length_append]
    rcases List.mem_cons.mp h with rfl | h
    · omega
    · have := length_le_tailSource h
      omega

theorem length_tailSource (ts : List Source) : ts.length ≤ (tailSource ts).length := by
  induction ts with
  | nil => exact Nat.le_refl 0
  | cons t ts ih =>
    simp only [tailSource, List.length_cons, List.length_append]
    omega

theorem length_bodySource (ts : List Source) : ts.length ≤ (bodySource ts).length + 1 := by
  cases ts with
  | nil => exact Nat.zero_le _
  | cons t ts =>
    have := length_tailSource ts
    simp only [bodySource, List.length_cons, List.length_append]
    omega

/-- The text of an object, blanks around it. -/
def objectSource (lead : Source) (ts : List Source) (gap trail : Source) : Source :=
  lead ++ .char '\x7b' :: (bodySource ts ++ (gap ++ .char '\x7d' :: trail))

theorem ofSource_objectSource {lead gap trail : Source} {ts : List Source}
    {ms : List (String × Json)} (hlead : ∀ s ∈ lead, s.isBlank = true)
    (hgap : ∀ s ∈ gap, s.isBlank = true) (htrail : ∀ s ∈ trail, s.isBlank = true)
    (h : List.Forall₂ (MemberStands (maxDepth - 1)) ts ms) :
    ofSource (objectSource lead ts gap trail) = .ok (.object ms) := by
  have hopen : (Symbol.char '\x7b').isBlank = false := rfl
  have hlength : (bodySource ts).length + 2 < bound (objectSource lead ts gap trail) := by
    simp only [bound, objectSource, List.length_append, List.length_cons]
    omega
  have hms : ms.length < bound (objectSource lead ts gap trail) := by
    have := length_bodySource ts
    have := h.length_eq
    omega
  have hskip : skipBlank (objectSource lead ts gap trail) =
      .char '\x7b' :: (bodySource ts ++ (gap ++ .char '\x7d' :: trail)) := by
    rw [objectSource, skipBlank_blank hlead, skipBlank_cons hopen]
  have hread := readValue_of_members hskip hms
    (membersRead_body h (fun t ht => by have := length_le_bodySource ht; omega) hgap)
  have hfinish : skipBlank trail = [] := by
    have := skipBlank_blank htrail []
    rwa [List.append_nil] at this
  unfold ofSource
  rw [show maxDepth = (maxDepth - 1) + 1 from rfl, hread]
  simp only [bind_ok, finish, if_pos hfinish]

/-- Whatever was read as an object is such a text. -/
theorem exists_objectSource {ms : List (String × Json)} (h : ofSource src = .ok (.object ms)) :
    ∃ lead ts gap trail, src = objectSource lead ts gap trail ∧
      (∀ s ∈ lead, s.isBlank = true) ∧ (∀ s ∈ gap, s.isBlank = true) ∧
      (∀ s ∈ trail, s.isBlank = true) ∧ List.Forall₂ (MemberStands (maxDepth - 1)) ts ms := by
  obtain ⟨trail, hread, htrail⟩ := ofSource_eq_ok h
  obtain ⟨hflat, -⟩ | ⟨d, behind, items, -, heq, -⟩ | ⟨d, behind, ms', hd, heq, hskip, -, hms⟩ :=
    readValue_cases hread
  · simp [depth] at hflat
  · cases heq
  · cases heq
    obtain rfl : d = maxDepth - 1 := by omega
    obtain ⟨lead, hlead, hsrc, -⟩ := exists_blank src
    obtain ⟨ts, gap, hgap, hbehind, hts⟩ := hms.exists_texts.2 rfl
    exact ⟨lead, ts, gap, trail, by rw [hsrc, hskip, hbehind, objectSource], hlead, hgap,
      fun s hs => List.dropWhile_eq_nil_iff.mp htrail s hs, hts⟩

end Json

/-! ## Members as text -/

def IsBlankText (s : String) : Prop := ∀ c ∈ s.toList, (Symbol.char c).isBlank = true

/-- A text that is an object of one member when it is put between braces. -/
def Json.IsMember (text : String) (m : String × Json) : Prop :=
  Json.ofText ("\x7b" ++ text ++ "\x7d") = .ok (.object [m])

instance (text : String) (m : String × Json) : Decidable (Json.IsMember text m) :=
  inferInstanceAs (Decidable (_ = _))

/-- The text of an object, told by the texts of its members; blanks belong to the member they stand
at, and to the gap where there is none. -/
structure ObjectText where
  lead : String
  members : List String
  gap : String
  trail : String

namespace ObjectText

def text (o : ObjectText) : String :=
  o.lead ++ "\x7b" ++ ",".intercalate o.members ++ o.gap ++ "\x7d" ++ o.trail

/-- With another member in front of member `i`. -/
def insert (o : ObjectText) (i : Nat) (member : String) : ObjectText :=
  { o with members := o.members.insertIdx i member }

/-- Each text is that of a member, and there is nothing else. -/
structure IsObject (o : ObjectText) (ms : List (String × Json)) : Prop where
  lead : IsBlankText o.lead
  members : List.Forall₂ Json.IsMember o.members ms
  gap : IsBlankText o.gap
  trail : IsBlankText o.trail

end ObjectText

theorem ofString_append (s t : String) : ofString (s ++ t) = ofString s ++ ofString t := by
  simp [ofString]

theorem ofString_inj {s t : String} (h : ofString s = ofString t) : s = t := by
  refine String.toList_inj.mp (List.map_injective_iff.mpr (fun c d hcd => ?_) h)
  cases hcd
  rfl

theorem ofString_intercalate : ∀ ts : List String,
    ofString (",".intercalate ts) = Json.bodySource (ts.map ofString)
  | [] => rfl
  | [t] => by simp [Json.bodySource, Json.tailSource]
  | t :: u :: ts => by
    rw [String.intercalate_cons_cons, ofString_append, ofString_append,
      ofString_intercalate (u :: ts), List.append_assoc]
    rfl

theorem ObjectText.ofString_text (o : ObjectText) :
    ofString o.text = Json.objectSource (ofString o.lead) (o.members.map ofString)
      (ofString o.gap) (ofString o.trail) := by
  simp only [text, ofString_append, ofString_intercalate, Json.objectSource, List.append_assoc]
  rfl

theorem isBlank_ofString {s : String} (h : IsBlankText s) : ∀ t ∈ ofString s, t.isBlank = true := by
  intro t ht
  obtain ⟨c, hc, rfl⟩ := List.mem_map.mp ht
  exact h c hc

/-- The characters among the symbols. -/
def Source.text (src : Source) : String :=
  .ofList (src.filterMap fun s => match s with | .char c => some c | .stray _ => none)

theorem ofString_text {src : Source} (h : ∀ s ∈ src, ∃ c, s = .char c) :
    ofString src.text = src := by
  induction src with
  | nil => rfl
  | cons s src ih =>
    obtain ⟨c, rfl⟩ := h s List.mem_cons_self
    have htail := ih fun s hs => h s (List.mem_cons_of_mem _ hs)
    simp only [ofString, text, String.toList_ofList] at htail ⊢
    rw [List.filterMap_cons, List.map_cons, htail]

theorem isBlankText_text {src : Source} (h : ∀ s ∈ src, s.isBlank = true) : IsBlankText src.text := by
  intro c hc
  rw [text, String.toList_ofList] at hc
  obtain ⟨s, hs, heq⟩ := List.mem_filterMap.mp hc
  cases s with
  | stray b => cases heq
  | char c' =>
    cases heq
    exact h _ hs

namespace Json

theorem ofText_braces (text : String) :
    ofString ("\x7b" ++ text ++ "\x7d") = objectSource [] [ofString text] [] [] := by
  simp only [ofString_append, objectSource, bodySource, tailSource, List.append_nil]
  rfl

theorem isMember_text {t : Source} {m : String × Json} (hchars : ∀ s ∈ t, ∃ c, s = .char c)
    (h : MemberStands (maxDepth - 1) t m) : IsMember t.text m := by
  unfold IsMember ofText
  rw [ofText_braces, ofString_text hchars]
  exact ofSource_objectSource (List.forall_mem_nil _) (List.forall_mem_nil _)
    (List.forall_mem_nil _) (.cons h .nil)

theorem isMember_texts {ts : List Source} {ms : List (String × Json)}
    (h : List.Forall₂ (MemberStands (maxDepth - 1)) ts ms)
    (hchars : ∀ t ∈ ts, ∀ s ∈ t, ∃ c, s = .char c) :
    List.Forall₂ IsMember (ts.map text) ms := by
  induction h with
  | nil => exact .nil
  | cons ht _ ih =>
    exact .cons (isMember_text (hchars _ List.mem_cons_self) ht)
      (ih fun t ht => hchars t (List.mem_cons_of_mem _ ht))

/-- What ends in a mark and is followed by blanks only is followed by nothing. -/
theorem eq_nil_of_blank {front behind rest : Source} {c : Char}
    (hc : (Symbol.char c).isBlank = false) (hrest : ∀ s ∈ rest, s.isBlank = true)
    (h : front ++ [.char c] = behind ++ .char c :: rest) : rest = [] ∧ front = behind := by
  rcases List.eq_nil_or_concat' rest with rfl | ⟨init, s, rfl⟩
  · exact ⟨rfl, List.append_cancel_right h⟩
  · rw [← List.cons_append, ← List.append_assoc] at h
    have hlast := (List.append_inj' h rfl).2
    cases hlast
    rw [hrest _ (List.mem_append_right _ (List.mem_singleton_self _))] at hc
    cases hc

theorem memberStands_of_isMember {text : String} {m : String × Json} (h : IsMember text m) :
    MemberStands (maxDepth - 1) (ofString text) m := by
  unfold IsMember ofText at h
  rw [ofText_braces] at h
  obtain ⟨trail, hread, htrail⟩ := ofSource_eq_ok h
  obtain ⟨hflat, -⟩ | ⟨d, behind, items, -, heq, -⟩ | ⟨d, behind, ms, hd, heq, hskip, -, hms⟩ :=
    readValue_cases hread
  · simp [depth] at hflat
  · cases heq
  · cases heq
    obtain rfl : d = maxDepth - 1 := by omega
    obtain ⟨ts, gap, hgap, hbehind, hts⟩ := hms.exists_texts.2 rfl
    have hopen : (Symbol.char '\x7b').isBlank = false := rfl
    have hinside : ofString text ++ [.char '\x7d'] = behind := by
      rw [objectSource, List.nil_append, skipBlank_cons hopen] at hskip
      simpa [bodySource, tailSource] using hskip
    cases hts with
    | @cons t m ts ms ht hnil =>
      cases hnil
      rw [hbehind, bodySource, tailSource, List.append_nil, ← List.append_assoc] at hinside
      obtain ⟨-, htext⟩ := eq_nil_of_blank rfl
        (fun s hs => List.dropWhile_eq_nil_iff.mp htrail s hs) hinside
      rw [htext]
      exact ht.blank (skipBlank_blank hgap)

end Json

/-! ## Reading and changing the members -/

theorem ObjectText.IsObject.ofText {o : ObjectText} {ms : List (String × Json)}
    (h : o.IsObject ms) : Json.ofText o.text = .ok (.object ms) := by
  unfold Json.ofText
  rw [o.ofString_text]
  refine Json.ofSource_objectSource (isBlank_ofString h.lead) (isBlank_ofString h.gap)
    (isBlank_ofString h.trail) ?_
  rw [List.forall₂_map_left_iff]
  exact h.members.imp fun _ _ => Json.memberStands_of_isMember

theorem mem_tailSource {s : Symbol} {t : Source} {ts : List Source} (ht : t ∈ ts) (hs : s ∈ t) :
    s ∈ Json.tailSource ts := by
  induction ts with
  | nil => cases ht
  | cons u ts ih =>
    rw [Json.tailSource, List.mem_cons, List.mem_append]
    rcases List.mem_cons.mp ht with rfl | ht
    · exact .inr (.inl hs)
    · exact .inr (.inr (ih ht))

theorem mem_bodySource {s : Symbol} {t : Source} {ts : List Source} (ht : t ∈ ts) (hs : s ∈ t) :
    s ∈ Json.bodySource ts := by
  cases ts with
  | nil => cases ht
  | cons u ts =>
    rw [Json.bodySource, List.mem_append]
    rcases List.mem_cons.mp ht with rfl | ht
    · exact .inl hs
    · exact .inr (mem_tailSource ht hs)

/-- The text of an object can be taken apart into the texts of its members. -/
theorem exists_objectText {s : String} {ms : List (String × Json)}
    (h : Json.ofText s = .ok (.object ms)) : ∃ o : ObjectText, o.text = s ∧ o.IsObject ms := by
  obtain ⟨lead, ts, gap, trail, hsrc, hlead, hgap, htrail, hts⟩ := Json.exists_objectSource h
  have hchars : ∀ x ∈ Json.objectSource lead ts gap trail, ∃ c, x = .char c := by
    intro x hx
    rw [← hsrc] at hx
    obtain ⟨c, -, rfl⟩ := List.mem_map.mp hx
    exact ⟨c, rfl⟩
  simp only [Json.objectSource, List.mem_append, List.mem_cons] at hchars
  have hmembers : ∀ t ∈ ts, ∀ x ∈ t, ∃ c, x = .char c := fun t ht x hx =>
    hchars x (.inr (.inr (.inl (mem_bodySource ht hx))))
  refine ⟨⟨lead.text, ts.map text, gap.text, trail.text⟩, ofString_inj ?_, isBlankText_text hlead,
    Json.isMember_texts hts hmembers, isBlankText_text hgap, isBlankText_text htrail⟩
  rw [ObjectText.ofString_text, hsrc, ofString_text fun x hx => hchars x (.inl hx),
    ofString_text fun x hx => hchars x (.inr (.inr (.inr (.inl hx)))),
    ofString_text fun x hx => hchars x (.inr (.inr (.inr (.inr (.inr hx))))), List.map_map]
  exact congrArg (Json.objectSource lead · gap trail)
    ((List.map_congr_left fun t ht => ofString_text (hmembers t ht)).trans (List.map_id ts))

theorem forall₂_insertIdx {α β : Type} {R : α → β → Prop} {a : α} {b : β} (hab : R a b) :
    ∀ (i : Nat) {as : List α} {bs : List β}, List.Forall₂ R as bs →
      List.Forall₂ R (as.insertIdx i a) (bs.insertIdx i b)
  | 0, _, _, h => .cons hab h
  | _ + 1, _, _, .nil => .nil
  | i + 1, _, _, .cons h hs => .cons h (forall₂_insertIdx hab i hs)

/-- A member put in is read there, and the others as before. -/
theorem ObjectText.IsObject.insert {o : ObjectText} {ms : List (String × Json)} (h : o.IsObject ms)
    {text : String} {m : String × Json} (hm : Json.IsMember text m) (i : Nat) :
    (o.insert i text).IsObject (ms.insertIdx i m) where
  lead := h.lead
  members := forall₂_insertIdx hm i h.members
  gap := h.gap
  trail := h.trail

end SceneScript
