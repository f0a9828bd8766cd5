import SceneScript.Proofs.Script.Literals
import SceneScript.Script.Load

/-! Decoding what was encoded and read back. A decoder recovers a value if it yields, from the
document value the reader returned, the value with its numbers reread. Records recover what their
fields recover, choices what their variants do, and so the whole tree. -/

namespace SceneScript

open Json (readBackItems? readBackMembers? readBackMembers?_keys depthItems depthMembers)

/-! ## Values by shape -/

def Shape.encode : (s : Shape) → s.Value → Json
  | .real, x => .real x
  | .string, s => .string s
  | .expr _, e => e.toJson
  | .statement, s => s.toJson
  | .statements, ss => .array (ss.map Statement.toJson)
  | .sequence, s => s.toJson
  | .scene, s => s.toJson
  | .scenes, ss => .array (ss.map Scene.toJson)
  | .act, a => a.toJson

def Shape.reread? : (s : Shape) → s.Value → Option s.Value
  | .real, x => x.reread?
  | .string, s => some s
  | .expr _, e => e.reread?
  | .statement, s => s.reread?
  | .statements, ss => ss.mapM Statement.reread?
  | .sequence, s => s.reread?
  | .scene, s => s.reread?
  | .scenes, ss => ss.mapM Scene.reread?
  | .act, a => a.reread?

/-- The decoder yields, from what is read `n` levels deep, the value with its numbers reread. -/
def Shape.Recovers (decode : Decoder) (n : Nat) (s : Shape) (v : s.Value) : Prop :=
  (((s.encode v).readBack? n).bind fun json => (decode s json).toOption) = s.reread? v

/-! ## Records -/

namespace Record

def encode : (fields : Fields) → Record fields → List (String × Json)
  | [], _ => []
  | (name, s) :: fields, (v, r) => (name, s.encode v) :: encode fields r

/-- What is made of the fields once each is reread. -/
def reread? {α : Type} : (fields : Fields) → Record fields → (Record fields → α) → Option α
  | [], _, make => some (make ())
  | (_, s) :: fields, (v, r), make => do
    let v ← s.reread? v
    reread? fields r fun r => make (v, r)

/-- Each field is recovered. -/
def Recovers (decode : Decoder) (n : Nat) : (fields : Fields) → Record fields → Prop
  | [], _ => True
  | (_, s) :: fields, (v, r) => s.Recovers decode n v ∧ Recovers decode n fields r

end Record

theorem Record.encode_keys : ∀ (fields : Fields) (r : Record fields),
    (encode fields r).map Prod.fst = fields.map Prod.fst
  | [], _ => rfl
  | (name, s) :: fields, (v, r) => by simp [encode, encode_keys fields r]

section

variable {decode : Decoder} {name : String} {s : Shape} {fields : Fields}

def Partial.cons (name : String) (value : Option s.Value) (p : Partial fields) :
    Partial ((name, s) :: fields) := (value, p)

def Record.cons (name : String) (v : s.Value) (r : Record fields) : Record ((name, s) :: fields) :=
  (v, r)

theorem put_here (p : Partial fields) (json : Json) :
    (Partial.cons name none p).put decode _ name json =
      (decode s json).map fun v => Partial.cons name (some v) p := by
  change (if name = name then _ else _) = _
  rw [if_pos rfl]
  cases decode s json <;> rfl

theorem put_other (value : Option s.Value) (p : Partial fields) {key : String} (h : key ≠ name)
    (json : Json) :
    (Partial.cons name value p).put decode _ key json =
      (p.put decode fields key json).map (Partial.cons name value) := by
  change (if key = name then _ else _) = _
  rw [if_neg h]
  cases p.put decode fields key json <;> rfl

/-- Members of other names leave a field alone. -/
theorem putAll_other (value : Option s.Value) : ∀ {ms : List (String × Json)} (p : Partial fields),
    name ∉ ms.map Prod.fst →
    Partial.putAll decode _ (Partial.cons name value p) ms =
      (Partial.putAll decode fields p ms).map (Partial.cons name value)
  | [], _, _ => rfl
  | (key, json) :: ms, p, h => by
    simp only [List.map_cons, List.mem_cons, not_or] at h
    rw [Partial.putAll, put_other value p (Ne.symm h.1), Partial.putAll]
    cases p.put decode fields key json with
    | error e => rfl
    | ok p => exact putAll_other value p h.2

theorem complete_cons (v : s.Value) (p : Partial fields) :
    Partial.complete _ (Partial.cons name (some v) p) =
      (Partial.complete fields p).map (Record.cons name v) := by
  change (Partial.complete fields p >>= fun r => .ok (Record.cons name v r)) = _
  cases Partial.complete fields p <;> rfl

/-- The first member is the first field, and no other is. -/
theorem putAll_field {json : Json} {ms : List (String × Json)} (h : name ∉ ms.map Prod.fst) :
    (Partial.putAll decode _ (Partial.none ((name, s) :: fields)) ((name, json) :: ms) >>=
        Partial.complete _).toOption =
      (decode s json).toOption.bind fun v =>
        ((Partial.putAll decode fields (Partial.none fields) ms >>=
          Partial.complete fields).toOption).map (Record.cons name v) := by
  change (Partial.putAll decode _ (Partial.cons name none (Partial.none fields)) _ >>= _).toOption =
    _
  rw [Partial.putAll, put_here]
  cases decode s json with
  | error e => rfl
  | ok v =>
    change (Partial.putAll decode _ (Partial.cons name (some v) (Partial.none fields)) ms >>=
      _).toOption = _
    rw [putAll_other (some v) (Partial.none fields) h]
    cases Partial.putAll decode fields (Partial.none fields) ms with
    | error e => rfl
    | ok p =>
      change (Partial.complete _ (Partial.cons name (some v) p)).toOption = _
      rw [complete_cons, toOption_map]
      rfl

end

theorem Record.recovers {α : Type} {decode : Decoder} {n : Nat} :
    ∀ {fields : Fields} {r : Record fields} (make : Record fields → α),
      (fields.map Prod.fst).Nodup → Recovers decode n fields r →
      ((readBackMembers? n (encode fields r)).bind fun ms =>
        (Partial.putAll decode fields (Partial.none fields) ms >>=
          Partial.complete fields).toOption.map make) = reread? fields r make
  | [], _, _, _, _ => rfl
  | (name, s) :: fields, (v, r), make, hnames, ⟨hv, hr⟩ => by
    obtain ⟨hname, hnames⟩ := List.nodup_cons.mp hnames
    change ((readBackMembers? n ((name, s.encode v) :: encode fields r)).bind _) =
      (s.reread? v).bind fun v => reread? fields r fun r => make (Record.cons name v r)
    rw [← hv, readBackMembers?]
    cases (s.encode v).readBack? n with
    | none => rfl
    | some json =>
      have htail := fun v => recovers (fun r => make (Record.cons name v r)) hnames hr
      simp only [← htail]
      cases hms : readBackMembers? n (encode fields r) with
      | none => exact (Option.bind_fun_none _).symm
      | some ms =>
        rw [← encode_keys fields r, ← readBackMembers?_keys hms] at hname
        refine (congrArg (Option.map make) (putAll_field hname)).trans ?_
        simp only [Option.map_bind, Option.bind_some]
        cases decode s json with
        | error e => rfl
        | ok v => exact Option.map_map ..

/-! ## Variants and choices -/

theorem Variant.recovers {α : Type} {decode : Decoder} {n : Nat} (v : Variant α)
    {r : Record v.fields} (hnames : (v.fields.map Prod.fst).Nodup)
    (hr : Record.Recovers decode n v.fields r) (surplus : List (String × Json) → Fault) :
    ((readBackMembers? n (Record.encode v.fields r)).bind fun ms =>
      (v.decodeWith (surplus ms) decode (.members ms)).toOption) =
        Record.reread? v.fields r v.make := by
  rw [← Record.recovers v.make hnames hr]
  cases readBackMembers? n (Record.encode v.fields r) with
  | none => rfl
  | some ms =>
    simp only [Option.bind_some, Variant.decodeWith]
    cases Partial.putAll decode v.fields (Partial.none v.fields) ms with
    | error e => rfl
    | ok p =>
      change (Partial.complete v.fields p >>= fun r => .ok (v.make r)).toOption =
        (Partial.complete v.fields p).toOption.map v.make
      cases Partial.complete v.fields p <;> rfl

theorem takeTag_rest {α : Type} {tag : String} {decode : Json → Except Fault α} (a : α) :
    ∀ {ms : List (String × Json)}, tag ∉ ms.map Prod.fst →
      takeTag tag decode (some a) ms = .ok (a, ms)
  | [], _ => rfl
  | (key, json) :: ms, h => by
    simp only [List.map_cons, List.mem_cons, not_or] at h
    simp only [takeTag, if_neg (Ne.symm h.1), takeTag_rest a h.2]
    rfl

theorem takeTag_first {α : Type} {tag : String} {decode : Json → Except Fault α} {json : Json}
    {ms : List (String × Json)} (h : tag ∉ ms.map Prod.fst) :
    takeTag tag decode none ((tag, json) :: ms) = (decode json).map (·, ms) := by
  simp only [takeTag, if_true]
  cases decode json with
  | error e => rfl
  | ok a => exact takeTag_rest a h

theorem decodeChoice_recovers {α : Type} (style : TagStyle) {decode : Decoder} {n : Nat}
    {variants : List (Variant α)} (v : Variant α) {r : Record v.fields}
    (hfind : findVariant (variants.map fun v => (v.name, v)) v.name = .ok v)
    (hnames : ("type" :: v.fields.map Prod.fst).Nodup)
    (hr : Record.Recovers decode n v.fields r) :
    ((readBackMembers? n (typed v.name (Record.encode v.fields r))).bind fun ms =>
      (decodeChoice style decode variants (.members ms)).toOption) =
        Record.reread? v.fields r v.make := by
  obtain ⟨htag, hnames⟩ := List.nodup_cons.mp hnames
  rw [← v.recovers hnames hr fun ms =>
    .invalidLength ms.length (elements v.fields.length ++ " in sequence")]
  rw [typed, readBackMembers?]
  cases hms : readBackMembers? n (Record.encode v.fields r) with
  | none => cases n <;> rfl
  | some ms =>
    have htag : "type" ∉ ms.map Prod.fst := by
      rwa [readBackMembers?_keys hms, Record.encode_keys]
    have hstring : (Json.string v.name).readBack? n = some (.string v.name) := by cases n <;> rfl
    rw [hstring]
    simp only [bind, Option.bind, decodeChoice, Body.split]
    rw [takeTag_first htag]
    simp only [decodeTag, hfind]
    rfl

/-! ## The tree -/

/-- The decoder recovers the value behind the members it was written as. -/
def Shape.RecoversBody (s : Shape) (v : s.Value) (members : List (String × Json)) : Prop :=
  ∀ n k, depthMembers members ≤ n → n < k →
    ((readBackMembers? n members).bind fun ms =>
      (s.form.decodeBody (Shape.decode k) (.members ms)).toOption) = s.reread? v

/-- Where the decoder may go deeper than the reader went, it recovers the value. -/
def Shape.RecoversWhole (s : Shape) (v : s.Value) : Prop :=
  ∀ n k, (s.encode v).depth ≤ n → n < k → s.Recovers (Shape.decode k) n v

theorem Shape.RecoversBody.whole {s : Shape} {v : s.Value} {members : List (String × Json)}
    (h : s.RecoversBody v members) (hv : s.encode v = .object members) : s.RecoversWhole v := by
  intro n k hn hk
  rw [hv, Json.depth] at hn
  obtain ⟨n, rfl⟩ : ∃ m, n = m + 1 := ⟨n - 1, by omega⟩
  obtain ⟨k, rfl⟩ : ∃ m, k = m + 1 := ⟨k - 1, by omega⟩
  unfold Shape.Recovers
  rw [← h n k (by omega) (by omega), hv, Json.readBack?]
  cases readBackMembers? n members with
  | none => rfl
  | some ms =>
    change (s.form.decode (Shape.decode k) (.object ms)).toOption = _
    cases s.form <;> rfl

theorem real_recovers (x : Binary64) : Shape.RecoversWhole .real x := by
  intro n k _ hk
  obtain ⟨k, rfl⟩ : ∃ m, k = m + 1 := ⟨k - 1, by omega⟩
  have hread : (Json.real x).readBack? n = (Numeral.real x).readBack? := by cases n <;> rfl
  change ((Json.real x).readBack? n).bind _ = x.reread?
  rw [hread, Binary64.reread?]
  cases (Numeral.real x).readBack? with
  | none => rfl
  | some json => cases json <;> rfl

theorem string_recovers (s : String) : Shape.RecoversWhole .string s := by
  intro n k _ hk
  obtain ⟨k, rfl⟩ : ∃ m, k = m + 1 := ⟨k - 1, by omega⟩
  cases n <;> rfl

theorem Expr.recovers {f : Family} (e : Expr f) : Shape.RecoversBody (.expr f) e e.members := by
  induction e with
  | @gap f =>
    intro n k _ _
    refine decodeChoice_recovers .nameOrIndex (r := ()) (Shape.gapVariant f) ?_ ?_ trivial
    · cases f <;> rfl
    · exact List.nodup_cons.mpr ⟨List.not_mem_nil, List.nodup_nil⟩
  | number x =>
    intro n k _ hk
    have hx := real_recovers x n k (Nat.zero_le n) hk
    exact decodeChoice_recovers .nameOrIndex (r := (x, ())) (Shape.exprVariants .number)[1] rfl
      (by decide) ⟨hx, trivial⟩
  | operation o a b iha ihb =>
    intro n k hn hk
    simp only [Expr.members, typed, depthMembers, Nat.max_le] at hn
    obtain ⟨-, hna, hnb, -⟩ := hn
    have ha := iha.whole rfl n k hna hk
    have hb := ihb.whole rfl n k hnb hk
    refine decodeChoice_recovers .nameOrIndex (r := (a, b, ())) (Shape.operationVariant o) ?_ ?_
      ⟨ha, hb, trivial⟩
    · cases o <;> rfl
    · cases o <;> decide
  | text s =>
    intro n k _ hk
    have hs := string_recovers s n k (Nat.zero_le n) hk
    exact decodeChoice_recovers .nameOrIndex (r := (s, ())) (Shape.exprVariants .text)[1] rfl
      (by decide) ⟨hs, trivial⟩
  | titleOf v ih =>
    intro n k hn hk
    simp only [Expr.members, typed, depthMembers, Nat.max_le] at hn
    obtain ⟨-, hnv, -⟩ := hn
    have hv := ih.whole rfl n k hnv hk
    exact decodeChoice_recovers .nameOrIndex (r := (v, ())) (Shape.exprVariants .text)[2] rfl
      (by decide) ⟨hv, trivial⟩
  | url s =>
    intro n k _ hk
    have hs := string_recovers s n k (Nat.zero_le n) hk
    exact decodeChoice_recovers .nameOrIndex (r := (s, ())) (Shape.exprVariants .video)[1] rfl
      (by decide) ⟨hs, trivial⟩
  | randomFrom c ih =>
    intro n k hn hk
    simp only [Expr.members, typed, depthMembers, Nat.max_le] at hn
    obtain ⟨-, hnc, -⟩ := hn
    have hc := ih.whole rfl n k hnc hk
    exact decodeChoice_recovers .nameOrIndex (r := (c, ())) (Shape.exprVariants .video)[2] rfl
      (by decide) ⟨hc, trivial⟩
  | relatedTo v ih =>
    intro n k hn hk
    simp only [Expr.members, typed, depthMembers, Nat.max_le] at hn
    obtain ⟨-, hnv, -⟩ := hn
    have hv := ih.whole rfl n k hnv hk
    exact decodeChoice_recovers .nameOrIndex (r := (v, ())) (Shape.exprVariants .collection)[1] rfl
      (by decide) ⟨hv, trivial⟩

theorem Statement.recovers : ∀ s : Statement, Shape.RecoversBody .statement s s.members
  | .get name => by
    intro n k _ hk
    have hname := string_recovers name n k (Nat.zero_le n) hk
    exact decodeChoice_recovers .nameOrIndex (r := (name, ())) Shape.statementVariants[0] rfl
      (by decide) ⟨hname, trivial⟩
  | .set name value => by
    intro n k hn hk
    simp only [Statement.members, typed, depthMembers, Nat.max_le] at hn
    obtain ⟨-, -, hnv, -⟩ := hn
    have hname := string_recovers name n k (Nat.zero_le n) hk
    have hvalue := value.recovers.whole rfl n k hnv hk
    exact decodeChoice_recovers .nameOrIndex (r := (name, value, ())) Shape.statementVariants[1]
      rfl (by decide) ⟨hname, hvalue, trivial⟩

/-! ## Lists -/

theorem depth_le_of_mem {json : Json} {items : List Json} (h : json ∈ items) :
    json.depth ≤ depthItems items := by
  induction items with
  | nil => simp at h
  | cons item items ih =>
    rw [depthItems]
    rcases List.mem_cons.mp h with rfl | h
    · omega
    · have := ih h
      omega

section

variable {α : Type} {encode : α → Json} {decode : Json → Except Fault α} {reread? : α → Option α}
  {n : Nat}

theorem decodeList_recovers : ∀ {as : List α},
    (∀ a ∈ as, ((encode a).readBack? n).bind (fun json => (decode json).toOption) = reread? a) →
    ((readBackItems? n (as.map encode)).bind fun js => (decodeList decode js).toOption) =
      as.mapM reread?
  | [], _ => rfl
  | a :: as, h => by
    have htail := decodeList_recovers fun a ha => h a (List.mem_cons_of_mem _ ha)
    rw [List.mapM_cons, ← h a List.mem_cons_self, ← htail, List.map_cons, readBackItems?]
    cases (encode a).readBack? n with
    | none => rfl
    | some json =>
      cases readBackItems? n (as.map encode) with
      | none => exact (Option.bind_fun_none _).symm
      | some js =>
        change (decode json >>= fun a =>
            decodeList decode js >>= fun as => .ok (a :: as)).toOption =
          (decode json).toOption.bind fun a =>
            (decodeList decode js).toOption.bind fun as => some (a :: as)
        cases decode json with
        | error e => rfl
        | ok a => cases decodeList decode js <;> rfl

/-- A list whose items are each recovered. -/
theorem array_recovers {whole : Json → Except Fault (List α)} {as : List α}
    (hwhole : ∀ js, whole (.array js) = decodeList decode js)
    (hn : (Json.array (as.map encode)).depth ≤ n + 1)
    (h : ∀ a ∈ as, (encode a).depth ≤ n →
      ((encode a).readBack? n).bind (fun json => (decode json).toOption) = reread? a) :
    ((Json.array (as.map encode)).readBack? (n + 1)).bind (fun json => (whole json).toOption) =
      as.mapM reread? := by
  have hitems : ∀ a ∈ as, (encode a).depth ≤ n := fun a ha => by
    have := depth_le_of_mem (List.mem_map_of_mem (f := encode) ha)
    rw [Json.depth] at hn
    omega
  rw [← decodeList_recovers fun a ha => h a ha (hitems a ha), Json.readBack?]
  cases readBackItems? n (as.map encode) with
  | none => rfl
  | some js => exact congrArg Except.toOption (hwhole js)

end

theorem statements_recover (ss : List Statement) : Shape.RecoversWhole .statements ss := by
  intro n k hn hk
  obtain ⟨k, rfl⟩ : ∃ m, k = m + 1 := ⟨k - 1, by omega⟩
  obtain ⟨n, rfl⟩ : ∃ m, n = m + 1 := ⟨n - 1, by simp only [Shape.encode, Json.depth] at hn; omega⟩
  exact array_recovers (fun js => bind_pure _) hn fun s _ hs =>
    s.recovers.whole rfl n k hs (by omega)

theorem CommandSequence.recovers (s : CommandSequence) :
    Shape.RecoversBody .sequence s s.members := by
  intro n k hn hk
  simp only [CommandSequence.members, depthMembers, Nat.max_le] at hn
  have hcommands := statements_recover s.commands n k hn.1 hk
  exact Shape.sequenceRecord.recovers (r := (s.commands, ())) (by decide) ⟨hcommands, trivial⟩
    fun ms => .invalidLength ms.length (elements 1 ++ " in sequence")

/-- The type of a scene may be given in either style. -/
theorem Scene.recovers_style (style : TagStyle) {n k : Nat} (hk : n < k) : ∀ s : Scene,
    depthMembers s.members ≤ n →
    ((readBackMembers? n s.members).bind fun ms =>
      (decodeChoice style (Shape.decode k) Shape.sceneVariants (.members ms)).toOption) =
        s.reread?
  | .text s, hn => by
    simp only [Scene.members, typed, depthMembers, Nat.max_le] at hn
    obtain ⟨-, -, -, hduration, hpre, hpost, htext, -⟩ := hn
    exact decodeChoice_recovers style
      (r := (s.title, s.comment, s.duration, s.preCommands, s.postCommands, s.text, ()))
      Shape.sceneVariants[0] rfl (by decide)
      ⟨string_recovers s.title n k (Nat.zero_le n) hk,
        string_recovers s.comment n k (Nat.zero_le n) hk,
        s.duration.recovers.whole rfl n k hduration hk,
        s.preCommands.recovers.whole rfl n k hpre hk,
        s.postCommands.recovers.whole rfl n k hpost hk,
        s.text.recovers.whole rfl n k htext hk, trivial⟩
  | .video s, hn => by
    simp only [Scene.members, typed, depthMembers, Nat.max_le] at hn
    obtain ⟨-, -, -, hduration, hpre, hpost, hoffset, hsource, -⟩ := hn
    exact decodeChoice_recovers style
      (r := (s.title, s.comment, s.duration, s.preCommands, s.postCommands, s.offset, s.source,
        ()))
      Shape.sceneVariants[1] rfl (by decide)
      ⟨string_recovers s.title n k (Nat.zero_le n) hk,
        string_recovers s.comment n k (Nat.zero_le n) hk,
        s.duration.recovers.whole rfl n k hduration hk,
        s.preCommands.recovers.whole rfl n k hpre hk,
        s.postCommands.recovers.whole rfl n k hpost hk,
        s.offset.recovers.whole rfl n k hoffset hk,
        s.source.recovers.whole rfl n k hsource hk, trivial⟩

theorem Scene.recovers (s : Scene) : Shape.RecoversBody .scene s s.members :=
  fun _ _ hn hk => s.recovers_style .nameOrIndex hk hn

theorem scenes_recover (ss : List Scene) : Shape.RecoversWhole .scenes ss := by
  intro n k hn hk
  obtain ⟨k, rfl⟩ : ∃ m, k = m + 1 := ⟨k - 1, by omega⟩
  obtain ⟨n, rfl⟩ : ∃ m, n = m + 1 := ⟨n - 1, by simp only [Shape.encode, Json.depth] at hn; omega⟩
  exact array_recovers (fun js => bind_pure _) hn fun s _ hs =>
    s.recovers.whole rfl n k hs (by omega)

theorem Act.recovers (a : Act) : Shape.RecoversBody .act a a.members := by
  intro n k hn hk
  simp only [Act.members, depthMembers, Nat.max_le] at hn
  have hscenes := scenes_recover a.scenes n k hn.1 hk
  exact Shape.actRecord.recovers (r := (a.scenes, ())) (by decide) ⟨hscenes, trivial⟩
    fun ms => .invalidLength ms.length (elements 1 ++ " in sequence")

/-! ## Components -/

theorem Shape.RecoversBody.component {c : Category} {v : c.shape.Value}
    {members : List (String × Json)} (h : c.shape.RecoversBody v members)
    (hdepth : depthMembers members < Json.maxDepth) :
    ((readBackMembers? (Json.maxDepth - 1) members).bind fun ms =>
      (Component.decodeBody c (.members ms)).toOption) =
        (c.shape.reread? v).bind fun v => some (c.component v) := by
  rw [← h (Json.maxDepth - 1) Json.maxDepth (by omega) (by decide)]
  cases readBackMembers? (Json.maxDepth - 1) members with
  | none => rfl
  | some ms =>
    change (c.shape.form.decodeBody (Shape.decode Json.maxDepth) (.members ms) >>=
      fun v => .ok (c.component v)).toOption = _
    rw [toOption_bind]
    rfl

theorem Component.recovers : ∀ c : Component, depthMembers c.members < Json.maxDepth →
    ((readBackMembers? (Json.maxDepth - 1) c.members).bind fun ms =>
      (decodeBody c.category (.members ms)).toOption) = c.reread?
  | .expr (f := f) e, h => Shape.RecoversBody.component (c := .expr f) e.recovers h
  | .statement s, h => Shape.RecoversBody.component (c := .statement) s.recovers h
  | .scene s, h => Shape.RecoversBody.component (c := .scene) s.recovers h
  | .sequence s, h => Shape.RecoversBody.component (c := .sequence) s.recovers h
  | .act a, h => Shape.RecoversBody.component (c := .act) a.recovers h

/-! ## Bare acts -/

theorem Scene.recovers_bare (s : Scene) {n : Nat} (hn : s.toJson.depth ≤ n)
    (hmax : n ≤ Json.maxDepth) :
    ((s.toJson.readBack? n).bind fun json => (Scene.ofBare json).toOption) = s.reread? := by
  rw [Scene.toJson, Json.depth] at hn
  obtain ⟨n, rfl⟩ : ∃ m, n = m + 1 := ⟨n - 1, by omega⟩
  rw [← s.recovers_style .name (k := Json.maxDepth) hmax (by omega), Scene.toJson, Json.readBack?]
  cases readBackMembers? n s.members <;> rfl

theorem Act.recovers_bare (a : Act) {n : Nat} (hn : a.toJson.depth ≤ n) (hmax : n ≤ Json.maxDepth) :
    ((a.toJson.readBack? n).bind fun json => (Act.ofBare json).toOption) = a.reread? := by
  rw [Act.toJson, Json.depth] at hn
  obtain ⟨n, rfl⟩ : ∃ m, n = m + 1 := ⟨n - 1, by omega⟩
  have hscenes : Shape.Recovers Act.decodeBareField n .scenes a.scenes := by
    have hitems : (Json.array (a.scenes.map Scene.toJson)).depth ≤ n := by
      simp only [Act.members, depthMembers] at hn
      omega
    obtain ⟨n, rfl⟩ : ∃ m, n = m + 1 := ⟨n - 1, by rw [Json.depth] at hitems; omega⟩
    exact array_recovers (fun js => rfl) hitems fun s _ hs => s.recovers_bare hs (by omega)
  have hmembers := Shape.actRecord.recovers (r := (a.scenes, ())) (by decide) ⟨hscenes, trivial⟩
    fun _ => .trailingCharacters
  rw [Act.toJson, Json.readBack?]
  refine Eq.trans ?_ hmembers
  change ((readBackMembers? n a.members).map Json.object).bind _ =
    (readBackMembers? n a.members).bind _
  cases readBackMembers? n a.members <;> rfl

end SceneScript
