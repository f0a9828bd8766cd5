import Mathlib.Data.List.Forall2
import SceneScript.Proofs.Script.Decoding

/-! What a record or a choice is written as, and that its decoder takes exactly that. A value of
parts is an object that has each part once, or a list of the parts in order. The decoders go
through the members one at a time; what they come to is told from the members of each name, so the
order of the members and what else stands among them do not matter. -/

namespace SceneScript

open Json (depthItems depthMembers)

/-- A part that is written out: its name, and what may stand for it. -/
abbrev Part := String × (Json → Prop)

/-- The parts written as one value. Members of an object that are no part are left out of account;
a list has nothing behind the parts. -/
def Json.Writes (parts : List Part) : Json → Prop
  | .object ms => ∀ part ∈ parts, ∃ json, ms.filter (·.1 == part.1) = [(part.1, json)] ∧ part.2 json
  | .array js => List.Forall₂ (fun part json => part.2 json) parts js
  | _ => False

/-- The tag of a variant: its name, or its position among the variants. -/
def typePart (name : String) (index : Nat) : Part :=
  ("type", fun json => json = .string name ∨ json = .number (.integer index))

/-- The fields of a record, given what may stand for a value of each shape. -/
def Record.parts (spelled : (s : Shape) → s.Value → Json → Prop) :
    (fields : Fields) → Record fields → List Part
  | [], _ => []
  | (name, s) :: fields, (v, r) => (name, spelled s v) :: Record.parts spelled fields r

/-- What the decoder takes for the value. -/
def Decoder.Takes (decode : Decoder) (s : Shape) (v : s.Value) (json : Json) : Prop :=
  decode s json = .ok v

/-- The parts behind a tag. -/
def Body.toJson : Body → Json
  | .members ms => .object ms
  | .items js => .array js

/-- The members under other names. -/
abbrev without (name : String) (ms : List (String × Json)) : List (String × Json) :=
  ms.filter (·.1 != name)

theorem filter_without {name other : String} (h : other ≠ name) (ms : List (String × Json)) :
    (without name ms).filter (·.1 == other) = ms.filter (·.1 == other) := by
  rw [List.filter_filter]
  refine List.filter_congr fun m _ => ?_
  by_cases hm : m.1 = other
  · simp [hm, h]
  · simp [hm]

theorem writes_without {name : String} {parts : List Part} (h : name ∉ parts.map Prod.fst)
    (ms : List (String × Json)) :
    Json.Writes parts (.object (without name ms)) ↔ Json.Writes parts (.object ms) := by
  refine forall₂_congr fun part hpart => ?_
  have hne : part.1 ≠ name := fun heq => h (heq ▸ List.mem_map_of_mem hpart)
  rw [filter_without hne]

theorem filter_eq_nil_of_notMem {name : String} {ms : List (String × Json)} :
    ms.filter (·.1 == name) = [] ↔ name ∉ ms.map Prod.fst := by
  rw [List.filter_eq_nil_iff]
  constructor
  · intro h hmem
    obtain ⟨m, hm, hname⟩ := List.mem_map.mp hmem
    exact h m hm (beq_iff_eq.mpr hname)
  · intro h m hm hname
    exact h (beq_iff_eq.mp hname ▸ List.mem_map_of_mem hm)

theorem without_of_notMem {name : String} {ms : List (String × Json)}
    (h : name ∉ ms.map Prod.fst) : without name ms = ms := by
  refine List.filter_eq_self.mpr fun m hm => ?_
  exact bne_iff_ne.mpr fun heq => h (heq ▸ List.mem_map_of_mem hm)

theorem Record.parts_names (spelled : (s : Shape) → s.Value → Json → Prop) :
    ∀ (fields : Fields) (r : Record fields),
      (Record.parts spelled fields r).map Prod.fst = fields.map Prod.fst
  | [], _ => rfl
  | (name, s) :: fields, (v, r) => by simp [Record.parts, parts_names spelled fields r]

/-! ## Fields among members -/

section

variable {decode : Decoder} {name : String} {s : Shape} {fields : Fields}

/-- A field that is there already may not come again. -/
theorem putAll_again {v : s.Value} : ∀ {ms : List (String × Json)} {p : Partial fields}
    {q : Partial ((name, s) :: fields)},
    Partial.putAll decode _ (Partial.cons name (some v) p) ms = .ok q →
      name ∉ ms.map Prod.fst
  | [], _, _, _ => List.not_mem_nil
  | (key, json) :: ms, p, q, h => by
    obtain ⟨p', hput, h⟩ := bind_eq_ok h
    by_cases hkey : key = name
    · subst hkey
      change (if key = key then _ else _) = _ at hput
      rw [if_pos rfl] at hput
      cases hput
    · rw [put_other (some v) p hkey] at hput
      cases hp : p.put decode fields key json with
      | error e => rw [hp] at hput; cases hput
      | ok p'' =>
        rw [hp] at hput
        cases hput
        simp only [List.map_cons, List.mem_cons, not_or]
        exact ⟨Ne.symm hkey, putAll_again h⟩

/-- A record is complete when one member is its first field, and the other members complete the
rest of it. -/
theorem putAll_complete_cons {v : s.Value} {r : Record fields} :
    ∀ {ms : List (String × Json)} {p : Partial fields},
      (Partial.putAll decode _ (Partial.cons name none p) ms >>= Partial.complete _) =
          .ok (Record.cons name v r) ↔
        (∃ json, ms.filter (·.1 == name) = [(name, json)] ∧ decode s json = .ok v) ∧
          (Partial.putAll decode fields p (without name ms) >>= Partial.complete fields) = .ok r
  | [], p => by
    constructor
    · intro h
      cases h
    · rintro ⟨⟨json, h, -⟩, -⟩
      cases h
  | (key, json) :: ms, p => by
    by_cases hkey : key = name
    · subst hkey
      rw [Partial.putAll, put_here]
      simp only [without, List.filter_cons, beq_self_eq_true, if_true, bne_self_eq_false,
        Bool.false_eq_true, if_false, List.cons.injEq, Prod.mk.injEq, true_and]
      cases hv : decode s json with
      | error e =>
        refine ⟨fun h => (by cases h), ?_⟩
        rintro ⟨⟨_, ⟨rfl, -⟩, h⟩, -⟩
        rw [hv] at h
        cases h
      | ok w =>
        change (Partial.putAll decode _ (Partial.cons key (some w) p) ms >>= _) = _ ↔ _
        by_cases hms : key ∈ ms.map Prod.fst
        · constructor
          · intro h
            obtain ⟨q, hq, -⟩ := bind_eq_ok h
            exact absurd hms (putAll_again hq)
          · rintro ⟨⟨_, ⟨rfl, h⟩, -⟩, -⟩
            exact absurd hms (filter_eq_nil_of_notMem.mp h)
        · rw [putAll_other (some w) p hms, filter_eq_nil_of_notMem.mpr hms]
          have hrest : ms.filter (fun m => m.1 != key) = ms := without_of_notMem hms
          rw [hrest]
          cases Partial.putAll decode fields p ms with
          | error e => exact iff_of_false (fun h => by cases h) fun h => by cases h.2
          | ok p' =>
            change Partial.complete _ (Partial.cons key (some w) p') = _ ↔
              _ ∧ Partial.complete fields p' = _
            rw [complete_cons]
            cases Partial.complete fields p' with
            | error e => exact iff_of_false (fun h => by cases h) fun h => by cases h.2
            | ok r' =>
              constructor
              · intro h
                cases h
                exact ⟨⟨json, ⟨rfl, rfl⟩, hv⟩, rfl⟩
              · rintro ⟨⟨_, ⟨rfl, -⟩, h⟩, hr⟩
                rw [hv] at h
                cases h
                cases hr
                rfl
    · have hne : (key != name) = true := bne_iff_ne.mpr hkey
      have hbeq : (key == name) = false := beq_eq_false_iff_ne.mpr hkey
      rw [Partial.putAll, put_other none p hkey]
      simp only [without, List.filter_cons, hne, if_true, hbeq, Bool.false_eq_true, if_false,
        Partial.putAll]
      cases p.put decode fields key json with
      | error e => exact iff_of_false (fun h => by cases h) fun h => by cases h.2
      | ok p' => exact putAll_complete_cons

end

/-- A record is made of members exactly if they write its fields. -/
theorem Record.members_iff {decode : Decoder} : ∀ {fields : Fields} (r : Record fields)
    {ms : List (String × Json)}, (fields.map Prod.fst).Nodup →
    ((Partial.putAll decode fields (Partial.none fields) ms >>= Partial.complete fields) = .ok r ↔
      Json.Writes (Record.parts decode.Takes fields r) (.object ms))
  | [], (), ms, _ => by
    have hempty : ∀ ms, Partial.putAll decode [] () ms = .ok () := by
      intro ms
      induction ms with
      | nil => rfl
      | cons m ms ih => exact ih
    change (Partial.putAll decode [] () ms >>= _) = _ ↔ _
    rw [hempty]
    exact ⟨fun _ _ hpart => absurd hpart List.not_mem_nil, fun _ => rfl⟩
  | (name, s) :: fields, (v, r), ms, hnames => by
    obtain ⟨hname, hnames⟩ := List.nodup_cons.mp hnames
    rw [← Record.parts_names decode.Takes fields r] at hname
    refine putAll_complete_cons.trans ?_
    rw [members_iff r hnames, writes_without hname]
    simp only [Json.Writes, Record.parts, List.forall_mem_cons]
    rfl

/-- And of a list exactly if its items are the fields. -/
theorem Record.items_iff {decode : Decoder} {short : Fault} : ∀ {fields : Fields}
    (r : Record fields) {js : List Json},
    Record.ofItems decode short fields js = .ok (r, []) ↔
      Json.Writes (Record.parts decode.Takes fields r) (.array js)
  | [], (), js => by
    constructor
    · intro h
      cases h
      exact .nil
    · intro h
      cases h
      rfl
  | (name, s) :: fields, (v, r), js => by
    constructor
    · intro h
      cases js with
      | nil => cases h
      | cons json js =>
        obtain ⟨w, hw, h⟩ := bind_eq_ok h
        obtain ⟨⟨r', rest⟩, hr, h⟩ := bind_eq_ok h
        cases h
        exact .cons hw ((items_iff r).mp hr)
    · intro h
      cases h with
      | cons hv hr =>
        rename_i json js
        change (decode s json >>= fun v => Record.ofItems decode short fields js >>= _) = _
        rw [show decode s json = .ok v from hv, bind_ok, (items_iff r).mpr hr]
        rfl

theorem Variant.decodeWith_iff {α : Type} {decode : Decoder} {surplus : Fault} (v : Variant α)
    (hnames : (v.fields.map Prod.fst).Nodup) (body : Body) (a : α) :
    v.decodeWith surplus decode body = .ok a ↔
      ∃ r, v.make r = a ∧ Json.Writes (Record.parts decode.Takes v.fields r) body.toJson := by
  constructor
  · intro h
    cases body with
    | members ms =>
      obtain ⟨p, hp, h⟩ := bind_eq_ok h
      obtain ⟨r, hr, h⟩ := bind_eq_ok h
      cases h
      refine ⟨r, rfl, (Record.members_iff r hnames).mp ?_⟩
      rw [hp]
      exact hr
    | items js =>
      obtain ⟨⟨r, rest⟩, hr, h⟩ := bind_eq_ok h
      by_cases hrest : rest = []
      · subst hrest
        cases h
        exact ⟨r, rfl, (Record.items_iff r).mp hr⟩
      · change (if rest = [] then _ else _) = _ at h
        rw [if_neg hrest] at h
        cases h
  · rintro ⟨r, rfl, hr⟩
    cases body with
    | members ms =>
      obtain ⟨p, hp, hcomplete⟩ := bind_eq_ok ((Record.members_iff r hnames).mpr hr)
      simp only [Variant.decodeWith, hp, bind_ok, hcomplete]
    | items js =>
      simp only [Variant.decodeWith]
      rw [(Record.items_iff r).mpr hr]
      rfl

/-! ## Tags -/

theorem takeTag_again {α : Type} {tag : String} {decode : Json → Except Fault α} {a b : α} :
    ∀ {ms rest : List (String × Json)}, takeTag tag decode (some a) ms = .ok (b, rest) →
      tag ∉ ms.map Prod.fst
  | [], _, _ => List.not_mem_nil
  | (key, json) :: ms, rest, h => by
    by_cases hkey : key = tag
    · simp only [takeTag, if_pos hkey] at h
      cases h
    · simp only [takeTag, if_neg hkey] at h
      obtain ⟨⟨b', rest'⟩, h, -⟩ := bind_eq_ok h
      simp only [List.map_cons, List.mem_cons, not_or]
      exact ⟨Ne.symm hkey, takeTag_again h⟩

/-- The tag is one member, and the others are left. -/
theorem takeTag_iff {α : Type} {tag : String} {decode : Json → Except Fault α} {a : α} :
    ∀ {ms rest : List (String × Json)}, takeTag tag decode none ms = .ok (a, rest) ↔
      (∃ json, ms.filter (·.1 == tag) = [(tag, json)] ∧ decode json = .ok a) ∧
        rest = without tag ms
  | [], rest => by
    constructor
    · intro h
      cases h
    · rintro ⟨⟨json, h, -⟩, -⟩
      cases h
  | (key, json) :: ms, rest => by
    by_cases hkey : key = tag
    · subst hkey
      simp only [takeTag, without, List.filter_cons, beq_self_eq_true, if_true, bne_self_eq_false,
        Bool.false_eq_true, if_false, List.cons.injEq, Prod.mk.injEq, true_and]
      constructor
      · intro h
        obtain ⟨b, hb, h⟩ := bind_eq_ok h
        have hms := takeTag_again h
        rw [takeTag_rest b hms] at h
        cases h
        exact ⟨⟨json, ⟨rfl, filter_eq_nil_of_notMem.mpr hms⟩, hb⟩, (without_of_notMem hms).symm⟩
      · rintro ⟨⟨_, ⟨rfl, hnone⟩, hb⟩, rfl⟩
        have hms := filter_eq_nil_of_notMem.mp hnone
        have hrest : ms.filter (fun m => m.1 != key) = ms := without_of_notMem hms
        rw [hb, bind_ok, takeTag_rest a hms, hrest]
    · have hne : (key != tag) = true := bne_iff_ne.mpr hkey
      have hbeq : (key == tag) = false := beq_eq_false_iff_ne.mpr hkey
      simp only [takeTag, if_neg hkey, without, List.filter_cons, hne, if_true, hbeq,
        Bool.false_eq_true, if_false]
      constructor
      · intro h
        obtain ⟨⟨b, rest'⟩, htake, hrest⟩ := bind_eq_ok h
        cases hrest
        obtain ⟨htag, rfl⟩ := takeTag_iff.mp htake
        exact ⟨htag, rfl⟩
      · rintro ⟨htag, rfl⟩
        rw [takeTag_iff.mpr ⟨htag, rfl⟩]
        rfl

/-- The parts behind a tag are written if the whole writes the tag and the parts. -/
theorem Body.split_iff {α : Type} {tag : String} {style : TagStyle} {options : List (String × α)}
    {a : α} {parts : List Part} (htag : tag ∉ parts.map Prod.fst) (body : Body) :
    (∃ rest, body.split tag style options = .ok (a, rest) ∧ Json.Writes parts rest.toJson) ↔
      Json.Writes ((tag, fun json => decodeTag style options json = .ok a) :: parts)
        body.toJson := by
  cases body with
  | members ms =>
    simp only [toJson, Json.Writes, List.forall_mem_cons]
    constructor
    · rintro ⟨rest, h, hparts⟩
      obtain ⟨⟨b, rest'⟩, htake, heq⟩ := bind_eq_ok h
      cases heq
      obtain ⟨hfound, rfl⟩ := takeTag_iff.mp htake
      exact ⟨hfound, (writes_without htag ms).mp hparts⟩
    · rintro ⟨hfound, hparts⟩
      refine ⟨members (without tag ms), ?_, (writes_without htag ms).mpr hparts⟩
      simp only [split, takeTag_iff.mpr ⟨hfound, rfl⟩]
      rfl
  | items js =>
    simp only [toJson, Json.Writes]
    constructor
    · rintro ⟨rest, h, hparts⟩
      cases js with
      | nil => cases h
      | cons json js =>
        obtain ⟨b, hb, heq⟩ := bind_eq_ok h
        cases heq
        exact .cons hb hparts
    · intro h
      cases h with
      | cons hjson hparts =>
        rename_i json js
        refine ⟨items js, ?_, hparts⟩
        simp only [split, show decodeTag style options json = .ok a from hjson]
        rfl

theorem Body.split_tag {α : Type} {tag : String} {style : TagStyle} {options : List (String × α)}
    {a : α} {body rest : Body} (h : body.split tag style options = .ok (a, rest)) :
    ∃ json, decodeTag style options json = .ok a := by
  cases body with
  | members ms =>
    obtain ⟨⟨b, rest'⟩, htake, heq⟩ := bind_eq_ok h
    cases heq
    obtain ⟨⟨json, -, hjson⟩, -⟩ := takeTag_iff.mp htake
    exact ⟨json, hjson⟩
  | items js =>
    cases js with
    | nil => cases h
    | cons json js =>
      obtain ⟨b, hb, heq⟩ := bind_eq_ok h
      cases heq
      exact ⟨json, hb⟩

theorem findVariant_iff {α : Type} {name : String} {a : α} : ∀ {options : List (String × α)},
    (options.map Prod.fst).Nodup → (findVariant options name = .ok a ↔ (name, a) ∈ options)
  | [], _ => ⟨nofun, fun h => absurd h List.not_mem_nil⟩
  | (first, b) :: options, hnames => by
    obtain ⟨hfirst, hnames⟩ := List.nodup_cons.mp hnames
    rw [List.mem_cons, Prod.mk.injEq]
    by_cases hname : first = name
    · subst hname
      have hfind : findVariant ((first, b) :: options) first = .ok b := by simp [findVariant]
      have habsent : (first, a) ∉ options := fun h =>
        hfirst (List.mem_map.mpr ⟨_, h, rfl⟩)
      rw [hfind]
      constructor
      · intro h
        cases h
        exact .inl ⟨rfl, rfl⟩
      · rintro (⟨-, rfl⟩ | h)
        · rfl
        · exact absurd h habsent
    · have hbeq : (first == name) = false := beq_eq_false_iff_ne.mpr hname
      have hfind : findVariant ((first, b) :: options) name = .ok a ↔
          findVariant options name = .ok a := by
        simp only [findVariant, List.find?_cons, hbeq]
        cases options.find? (·.1 == name) <;> simp
      rw [hfind, findVariant_iff hnames]
      constructor
      · exact .inr
      · rintro (⟨rfl, -⟩ | h)
        · exact absurd rfl hname
        · exact h

/-- A tag names a variant, or gives its position. -/
theorem decodeTag_iff {α : Type} {options : List (String × α)}
    (hnames : (options.map Prod.fst).Nodup) {json : Json} {a : α} :
    decodeTag .nameOrIndex options json = .ok a ↔
      ∃ (i : Nat) (name : String), options[i]? = some (name, a) ∧ (typePart name i).2 json := by
  constructor
  · intro h
    unfold decodeTag at h
    split at h
    · rename_i name
      obtain ⟨i, hi⟩ := List.mem_iff_getElem?.mp ((findVariant_iff hnames).mp h)
      exact ⟨i, name, hi, .inl rfl⟩
    · rename_i k
      by_cases hk : 0 ≤ k
      · rw [if_pos ⟨rfl, hk⟩] at h
        cases hfind : options[k.toNat]? with
        | none => rw [hfind] at h; cases h
        | some found =>
          rw [hfind] at h
          cases h
          refine ⟨k.toNat, found.1, hfind, .inr ?_⟩
          rw [Int.toNat_of_nonneg hk]
      · rw [if_neg (fun h => hk h.2)] at h
        cases h
    · cases h
  · rintro ⟨i, name, hi, rfl | rfl⟩
    · exact (findVariant_iff hnames).mpr (List.mem_of_getElem? hi)
    · simp [decodeTag, hi]

/-! ## Choices -/

/-- No two variants share a name, no field stands twice, and none is called like a tag. -/
def Variant.WellNamed {α : Type} (v : Variant α) : Prop :=
  ("category" :: "type" :: v.fields.map Prod.fst).Nodup

def Form.WellNamed {α : Type} : Form α → Prop
  | .record v => v.WellNamed
  | .choice _ variants => (variants.map Variant.name).Nodup ∧ ∀ v ∈ variants, v.WellNamed
  | _ => True

instance {α : Type} (v : Variant α) : Decidable v.WellNamed :=
  inferInstanceAs (Decidable (_ :: _).Nodup)

instance {α : Type} : (form : Form α) → Decidable form.WellNamed
  | .record v => inferInstanceAs (Decidable v.WellNamed)
  | .choice _ _ => inferInstanceAs (Decidable (_ ∧ _))
  | .real _ => .isTrue trivial
  | .string _ => .isTrue trivial
  | .list _ _ => .isTrue trivial

/-- The parts a value may be written as, given what may stand for a value of each shape. -/
inductive Form.Parts {α : Type} (spelled : (s : Shape) → s.Value → Json → Prop) (a : α) :
    Form α → List Part → Prop
  | record {v : Variant α} (r : Record v.fields) : v.make r = a →
      Form.Parts spelled a (.record v) (Record.parts spelled v.fields r)
  | choice {name : String} {variants : List (Variant α)} {i : Nat} {v : Variant α}
      (r : Record v.fields) : variants[i]? = some v → v.make r = a →
      Form.Parts spelled a (.choice name variants)
        (typePart v.name i :: Record.parts spelled v.fields r)

theorem writes_exists {ι : Type} {name : String} {holds : ι → Prop} {allowed : ι → Json → Prop}
    {parts : List Part} {json : Json} :
    Json.Writes ((name, fun json => ∃ i, holds i ∧ allowed i json) :: parts) json ↔
      ∃ i, holds i ∧ Json.Writes ((name, allowed i) :: parts) json := by
  cases json with
  | object ms =>
    simp only [Json.Writes, List.forall_mem_cons]
    constructor
    · rintro ⟨⟨json, hfilter, i, hi, hjson⟩, hparts⟩
      exact ⟨i, hi, ⟨json, hfilter, hjson⟩, hparts⟩
    · rintro ⟨i, hi, ⟨json, hfilter, hjson⟩, hparts⟩
      exact ⟨⟨json, hfilter, i, hi, hjson⟩, hparts⟩
  | array js =>
    simp only [Json.Writes]
    constructor
    · rintro (_ | ⟨⟨i, hi, hjson⟩, hparts⟩)
      exact ⟨i, hi, .cons hjson hparts⟩
    · rintro ⟨i, hi, _ | ⟨hjson, hparts⟩⟩
      exact .cons ⟨i, hi, hjson⟩ hparts
  | _ => exact ⟨False.elim, fun ⟨_, _, h⟩ => h⟩

theorem decodeTag_variant {α : Type} {variants : List (Variant α)}
    (hnames : (variants.map Variant.name).Nodup) {v : Variant α} {json : Json} :
    decodeTag .nameOrIndex (variants.map fun v => (v.name, v)) json = .ok v ↔
      ∃ i, variants[i]? = some v ∧ (typePart v.name i).2 json := by
  have hoptions : ((variants.map fun v => (v.name, v)).map Prod.fst).Nodup := by
    rwa [List.map_map]
  rw [decodeTag_iff hoptions]
  constructor
  · rintro ⟨i, name, hi, hjson⟩
    rw [List.getElem?_map] at hi
    obtain ⟨w, hw, heq⟩ := Option.map_eq_some_iff.mp hi
    cases heq
    exact ⟨i, hw, hjson⟩
  · rintro ⟨i, hi, hjson⟩
    exact ⟨i, v.name, by rw [List.getElem?_map, hi]; rfl, hjson⟩

/-- The variant behind a tag, and what is written beside it. -/
theorem split_variant {α : Type} {variants : List (Variant α)}
    (hnames : (variants.map Variant.name).Nodup) {v : Variant α} {parts : List Part}
    (htype : "type" ∉ parts.map Prod.fst) (body : Body) :
    (∃ rest, body.split "type" .nameOrIndex (variants.map fun v => (v.name, v)) = .ok (v, rest) ∧
        Json.Writes parts rest.toJson) ↔
      ∃ i, variants[i]? = some v ∧ Json.Writes (typePart v.name i :: parts) body.toJson := by
  rw [Body.split_iff htype]
  simp only [decodeTag_variant hnames]
  exact writes_exists

theorem Variant.WellNamed.names {α : Type} {v : Variant α} (h : v.WellNamed) :
    "category" ∉ v.fields.map Prod.fst ∧ "type" ∉ v.fields.map Prod.fst ∧
      (v.fields.map Prod.fst).Nodup := by
  obtain ⟨hcategory, h⟩ := List.nodup_cons.mp h
  obtain ⟨htype, hfields⟩ := List.nodup_cons.mp h
  exact ⟨fun h => hcategory (List.mem_cons_of_mem _ h), htype, hfields⟩

theorem decodeChoice_iff {α : Type} {decode : Decoder} {name : String}
    {variants : List (Variant α)} (hnames : (Form.choice name variants).WellNamed) (body : Body)
    (a : α) :
    decodeChoice .nameOrIndex decode variants body = .ok a ↔
      ∃ parts, Form.Parts decode.Takes a (.choice name variants) parts ∧
        Json.Writes parts body.toJson := by
  obtain ⟨hvariants, hfields⟩ := hnames
  have htype : ∀ v ∈ variants, ∀ r : Record v.fields,
      "type" ∉ (Record.parts decode.Takes v.fields r).map Prod.fst := by
    intro v hv r
    rw [Record.parts_names]
    exact (hfields v hv).names.2.1
  constructor
  · intro h
    obtain ⟨⟨v, rest⟩, hv, h⟩ := bind_eq_ok h
    obtain ⟨json, htag⟩ := Body.split_tag hv
    obtain ⟨i, hi, -⟩ := (decodeTag_variant hvariants).mp htag
    have hmem := List.mem_of_getElem? hi
    obtain ⟨r, hr, hrest⟩ := (v.decodeWith_iff (hfields v hmem).names.2.2 rest a).mp h
    obtain ⟨i, hi, hwrites⟩ := (split_variant hvariants (htype v hmem r) body).mp ⟨rest, hv, hrest⟩
    exact ⟨_, .choice r hi hr, hwrites⟩
  · rintro ⟨parts, hparts, hwrites⟩
    cases hparts with
    | choice r hi hr =>
      rename_i i v
      have hmem := List.mem_of_getElem? hi
      obtain ⟨rest, hv, hrest⟩ :=
        (split_variant hvariants (htype v hmem r) body).mpr ⟨i, hi, hwrites⟩
      simp only [decodeChoice, hv, bind_ok]
      exact (v.decodeWith_iff (hfields v hmem).names.2.2 rest a).mpr ⟨r, hr, hrest⟩

theorem Form.decodeBody_iff {α : Type} {decode : Decoder} {form : Form α} (hform : form.WellNamed)
    (body : Body) (a : α) :
    form.decodeBody decode body = .ok a ↔
      ∃ parts, Form.Parts decode.Takes a form parts ∧ Json.Writes parts body.toJson := by
  cases form with
  | record v =>
    refine (v.decodeWith_iff (Variant.WellNamed.names hform).2.2 body a).trans ?_
    constructor
    · rintro ⟨r, hr, hwrites⟩
      exact ⟨_, .record r hr, hwrites⟩
    · rintro ⟨parts, hparts, hwrites⟩
      cases hparts with
      | record r hr => exact ⟨r, hr, hwrites⟩
  | choice name variants => exact decodeChoice_iff hform body a
  | _ =>
    refine ⟨fun h => ?_, fun ⟨parts, hparts, _⟩ => nomatch hparts⟩
    cases body <;> cases h

/-- Whether a value of the form is written part by part. -/
def Form.hasParts {α : Type} : Form α → Bool
  | .record _ => true
  | .choice _ _ => true
  | _ => false

theorem Form.decode_body? {α : Type} {decode : Decoder} {form : Form α}
    (hparts : form.hasParts = true) (json : Json) :
    form.decode decode json = match json.body? with
      | some body => form.decodeBody decode body
      | none => .error (.mismatch json form.wanted) := by
  cases form <;> cases hparts <;> cases json <;> rfl

theorem Form.decode_iff {α : Type} {decode : Decoder} {form : Form α} (hform : form.WellNamed)
    (hparts : form.hasParts = true) (json : Json) (a : α) :
    form.decode decode json = .ok a ↔
      ∃ parts, Form.Parts decode.Takes a form parts ∧ Json.Writes parts json := by
  rw [Form.decode_body? hparts]
  cases json with
  | object ms => exact form.decodeBody_iff hform (.members ms) a
  | array js => exact form.decodeBody_iff hform (.items js) a
  | _ =>
    refine iff_of_false (fun h => by cases h) ?_
    rintro ⟨_, _, h⟩
    exact h.elim

/-- No part is called like the category. -/
theorem Form.Parts.category_notMem {α : Type} {spelled : (s : Shape) → s.Value → Json → Prop}
    {form : Form α} (hform : form.WellNamed) {a : α} {parts : List Part}
    (h : Form.Parts spelled a form parts) : "category" ∉ parts.map Prod.fst := by
  cases h with
  | record r hr =>
    rw [Record.parts_names]
    exact (Variant.WellNamed.names hform).1
  | choice r hi hr =>
    have hnames := (hform.2 _ (List.mem_of_getElem? hi)).names
    rw [List.map_cons, Record.parts_names, List.mem_cons, not_or]
    exact ⟨(by decide : "category" ≠ "type"), hnames.1⟩

/-! ## What stands deeper -/

theorem depth_le_of_member {m : String × Json} {ms : List (String × Json)} (h : m ∈ ms) :
    m.2.depth ≤ depthMembers ms := by
  induction ms with
  | nil => cases h
  | cons first ms ih =>
    rw [depthMembers]
    rcases List.mem_cons.mp h with rfl | h
    · exact Nat.le_max_left ..
    · exact Nat.le_trans (ih h) (Nat.le_max_right ..)

/-- The same parts, as far as values nested less than `d` levels deep are concerned. -/
def SameParts (d : Nat) : List Part → List Part → Prop :=
  List.Forall₂ fun part other =>
    part.1 = other.1 ∧ ∀ json, json.depth < d → (part.2 json ↔ other.2 json)

theorem SameParts.symm {d : Nat} {parts others : List Part} (h : SameParts d parts others) :
    SameParts d others parts := by
  induction h with
  | nil => exact .nil
  | cons hpart _ ih =>
    exact .cons ⟨hpart.1.symm, fun json hjson => (hpart.2 json hjson).symm⟩ ih

theorem SameParts.writes_items {d : Nat} {parts others : List Part} (h : SameParts d parts others)
    {js : List Json} (hdepth : depthItems js < d) :
    Json.Writes parts (.array js) ↔ Json.Writes others (.array js) := by
  induction h generalizing js with
  | nil => rfl
  | cons hpart _ ih =>
    cases js with
    | nil => exact ⟨nofun, nofun⟩
    | cons json js =>
      rw [depthItems, Nat.max_lt] at hdepth
      simp only [Json.Writes, List.forall₂_cons]
      exact and_congr (hpart.2 json hdepth.1) (ih hdepth.2)

theorem SameParts.writes_members {d : Nat} {parts others : List Part}
    (h : SameParts d parts others) {ms : List (String × Json)} (hdepth : depthMembers ms < d) :
    Json.Writes parts (.object ms) ↔ Json.Writes others (.object ms) := by
  induction h with
  | nil => rfl
  | cons hpart _ ih =>
    simp only [Json.Writes, List.forall_mem_cons] at ih ⊢
    refine and_congr (exists_congr fun json => ?_) ih
    rw [hpart.1]
    refine and_congr_right fun hfilter => hpart.2 json ?_
    have hmem := List.mem_of_mem_filter (hfilter ▸ List.mem_singleton_self _)
    exact Nat.lt_of_le_of_lt (depth_le_of_member hmem) hdepth

theorem SameParts.writes {d : Nat} {parts others : List Part} (h : SameParts d parts others)
    {json : Json} (hdepth : json.depth ≤ d) : Json.Writes parts json ↔ Json.Writes others json := by
  cases json with
  | object ms => exact h.writes_members hdepth
  | array js => exact h.writes_items hdepth
  | _ => rfl

theorem Record.sameParts {d : Nat} {spelled other : (s : Shape) → s.Value → Json → Prop}
    (h : ∀ s v json, json.depth < d → (spelled s v json ↔ other s v json)) :
    ∀ {fields : Fields} (r : Record fields),
      SameParts d (Record.parts spelled fields r) (Record.parts other fields r)
  | [], _ => .nil
  | (_, s) :: _, (v, r) => .cons ⟨rfl, h s v⟩ (sameParts h r)

/-- What parts a form has does not depend on how its fields are spelled. -/
theorem Form.Parts.same {α : Type} {d : Nat} {spelled other : (s : Shape) → s.Value → Json → Prop}
    (h : ∀ s v json, json.depth < d → (spelled s v json ↔ other s v json)) {form : Form α} {a : α}
    {parts : List Part} (hparts : Form.Parts spelled a form parts) :
    ∃ others, Form.Parts other a form others ∧ SameParts d parts others := by
  cases hparts with
  | record r hr => exact ⟨_, .record r hr, Record.sameParts h r⟩
  | choice r hi hr =>
    exact ⟨_, .choice r hi hr, .cons ⟨rfl, fun _ _ => Iff.rfl⟩ (Record.sameParts h r)⟩

end SceneScript
