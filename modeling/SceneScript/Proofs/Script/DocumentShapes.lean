import SceneScript.Proofs.Json.Members
import SceneScript.Proofs.Script.RoundTrip
import SceneScript.Proofs.Script.Spelling

/-! The two shapes of a document. What loads as a bare act loads as the same act when it is tagged,
wherever the tag is put in: the bare decoder takes a part of what the other takes, and the reader
sees the text it was put into as before. A component that is no act is told apart by its tag. -/

namespace SceneScript

open Json (depthMembers)

/-! ## What the bare decoder takes -/

theorem decodeTag_style {α : Type} {options : List (String × α)} {json : Json} {a : α}
    (h : decodeTag .name options json = .ok a) : decodeTag .nameOrIndex options json = .ok a := by
  cases json with
  | number n =>
    cases n with
    | integer i => simp [decodeTag] at h
    | real x => cases h
  | _ => exact h

theorem Body.split_style {α : Type} {tag : String} {options : List (String × α)} {body : Body}
    {r : α × Body} (h : body.split tag .name options = .ok r) :
    body.split tag .nameOrIndex options = .ok r := by
  cases body with
  | members ms =>
    obtain ⟨⟨a, rest⟩, htake, heq⟩ := bind_eq_ok h
    cases heq
    obtain ⟨⟨json, hfilter, hjson⟩, hrest⟩ := takeTag_iff.mp htake
    rw [split, takeTag_iff.mpr ⟨⟨json, hfilter, decodeTag_style hjson⟩, hrest⟩]
    rfl
  | items js =>
    cases js with
    | nil => cases h
    | cons json js =>
      obtain ⟨a, ha, heq⟩ := bind_eq_ok h
      cases heq
      rw [split, decodeTag_style ha]
      rfl

theorem Scene.decode_of_ofBare {json : Json} {s : Scene} (h : Scene.ofBare json = .ok s) :
    Shape.decode (Json.maxDepth + 1) .scene json = .ok s := by
  have hchoice : ∀ body : Body,
      decodeChoice .name (Shape.decode Json.maxDepth) Shape.sceneVariants body = .ok s →
      decodeChoice .nameOrIndex (Shape.decode Json.maxDepth) Shape.sceneVariants body = .ok s := by
    intro body hbody
    obtain ⟨r, hsplit, hthen⟩ := bind_eq_ok hbody
    rw [decodeChoice, Body.split_style hsplit]
    exact hthen
  cases json with
  | object ms => exact hchoice (.members ms) h
  | array js => exact hchoice (.items js) h
  | _ => cases h

theorem decodeList_mono {α : Type} {decode decode' : Json → Except Fault α}
    (h : ∀ {json a}, decode json = .ok a → decode' json = .ok a) :
    ∀ {js : List Json} {as : List α}, decodeList decode js = .ok as → decodeList decode' js = .ok as
  | [], _, hlist => hlist
  | json :: js, as, hlist => by
    obtain ⟨a, ha, hlist⟩ := bind_eq_ok hlist
    obtain ⟨as', has, hlist⟩ := bind_eq_ok hlist
    cases hlist
    rw [decodeList, h ha, bind_ok, decodeList_mono h has]
    rfl

/-- What is taken for the scenes of a bare act spells them. -/
theorem scenes_of_bareField {json : Json} (hdepth : json.depth < Json.maxDepth)
    {scenes : List Scene} (h : Act.decodeBareField .scenes json = .ok scenes) :
    Shape.Spelled .scenes scenes json := by
  cases json with
  | array js =>
    refine (decodeList_iff fun s item hitem => ?_).mp (decodeList_mono Scene.decode_of_ofBare h)
    have hle := depth_le_of_mem hitem
    rw [Json.depth] at hdepth
    exact Shape.decode_iff .scene s (by omega)
  | _ => cases h

theorem Act.writes_of_ofBare {ms : List (String × Json)}
    (hdepth : (Json.object ms).depth ≤ Json.maxDepth) {a : Act} (h : Act.ofBare (.object ms) = .ok a) :
    Json.Writes a.parts (.object ms) := by
  change Shape.actRecord.decodeWith .trailingCharacters Act.decodeBareField (.members ms) = _ at h
  obtain ⟨r, rfl, hwrites⟩ := (Shape.actRecord.decodeWith_iff (by decide) (.members ms) a).mp h
  obtain ⟨json, hfilter, htakes⟩ := hwrites _ List.mem_cons_self
  have hmem : ("scenes", json) ∈ ms :=
    List.mem_of_mem_filter (hfilter ▸ List.mem_singleton_self _)
  have hjson := Nat.lt_of_le_of_lt (depth_le_of_member hmem) hdepth
  refine List.forall_mem_singleton.mpr ⟨json, hfilter, ?_⟩
  exact scenes_of_bareField hjson htakes

/-! ## Putting the category in -/

/-- Where one member has a name, it is the one wherever another is put in. -/
theorem filter_insertIdx {name : String} {m n : String × Json} {ms : List (String × Json)}
    {i : Nat} (hi : i ≤ ms.length) (h : (m :: ms).filter (·.1 == name) = [n]) :
    (ms.insertIdx i m).filter (·.1 == name) = [n] := by
  have hperm := (List.perm_insertIdx m ms hi).filter (·.1 == name)
  rw [h] at hperm
  exact List.perm_singleton.mp hperm

theorem Act.spelled_insert {a : Act} {ms : List (String × Json)}
    (hbare : "category" ∉ ms.map Prod.fst) (h : Json.Writes a.parts (.object ms)) {i : Nat}
    (hi : i ≤ ms.length) :
    (Component.act a).Spelled (.object (ms.insertIdx i ("category", .string "Act"))) := by
  obtain ⟨json, hfilter, hscenes⟩ := h _ List.mem_cons_self
  refine List.forall_mem_cons.mpr ⟨⟨_, filter_insertIdx hi ?_, rfl⟩,
    List.forall_mem_singleton.mpr ⟨json, filter_insertIdx hi ?_, hscenes⟩⟩
  · have hnone := filter_eq_nil_of_notMem.mpr hbare
    rw [List.filter_cons_of_pos (by rfl), stringPart, hnone]
    rfl
  · rw [List.filter_cons_of_neg (by simp)]
    exact hfilter

theorem hasMember_iff {key : String} {ms : List (String × Json)} :
    (Json.object ms).hasMember key = true ↔ key ∈ ms.map Prod.fst := by
  simp [Json.hasMember]

theorem Act.ofText_bare_eq {s : String} {ms : List (String × Json)}
    (hroot : Json.ofText s = .ok (.object ms)) (hbare : "category" ∉ ms.map Prod.fst) :
    Act.ofText s = (Act.ofBare (.object ms)).mapError .malformed := by
  have hmember : (Json.object ms).hasMember "category" = false :=
    Bool.eq_false_iff.mpr fun h => hbare (hasMember_iff.mp h)
  rw [Act.ofText, hroot]
  simp only [mapError_ok, bind_ok, hmember, Bool.false_eq_true, if_false]

theorem Act.ofText_tagged {s : String} {ms : List (String × Json)}
    (hroot : Json.ofText s = .ok (.object ms)) (htagged : "category" ∈ ms.map Prod.fst)
    {c : Component} (hload : Component.ofText s = .ok c) :
    (∀ a, c = .act a → Act.ofText s = .ok a) ∧
      ((∀ a, c ≠ .act a) → Act.ofText s = .error (.notAnAct c.kind)) := by
  have hmember := hasMember_iff.mpr htagged
  rw [Act.ofText, hroot]
  simp only [mapError_ok, bind_ok, hmember, if_true, hload]
  constructor
  · rintro a rfl
    rfl
  · intro hother
    cases c with
    | act a => exact absurd rfl (hother a)
    | _ => rfl

/-- The tag of an act, written as a member. -/
def actTag : String := "\"category\":\"Act\""

theorem isMember_actTag : Json.IsMember actTag ("category", .string "Act") := by decide +kernel

/-- What loads as a bare act loads as the same act with its tag put in anywhere. -/
theorem Act.ofText_insert {o : ObjectText} {ms : List (String × Json)} (ho : o.IsObject ms)
    (hbare : "category" ∉ ms.map Prod.fst) {a : Act} (hload : Act.ofText o.text = .ok a) {i : Nat}
    (hi : i ≤ o.members.length) : Act.ofText (o.insert i actTag).text = .ok a := by
  have hroot := ho.ofText
  rw [Act.ofText_bare_eq hroot hbare] at hload
  have hwrites := Act.writes_of_ofBare (Json.depth_ofText hroot) (mapError_eq_ok hload)
  have hlength : i ≤ ms.length := ho.members.length_eq ▸ hi
  have hspelled := Act.spelled_insert hbare hwrites hlength
  have hinserted : Json.ofText (o.insert i actTag).text =
      .ok (Body.members (ms.insertIdx i ("category", .string "Act"))).toJson :=
    (ho.insert isMember_actTag i).ofText
  have hload := (Component.ofText_eq_ok_iff hinserted _).mpr
    ((Component.split_decodeBody_iff (Json.depth_ofText hinserted) _).mpr hspelled)
  have htagged : "category" ∈ (ms.insertIdx i ("category", .string "Act")).map Prod.fst :=
    List.mem_map_of_mem ((List.mem_insertIdx hlength).mpr (.inl rfl))
  exact (Act.ofText_tagged hinserted htagged hload).1 a rfl

/-! ## Components that are no act -/

theorem Expr.exists_reread {f : Family} (e : Expr f)
    (h : ∀ x ∈ e.literals, ∃ y, x.reread? = some y) :
    ∃ e', e.reread? = some e' ∧ e'.kind = e.kind := by
  induction e with
  | gap | text _ | url _ => exact ⟨_, rfl, rfl⟩
  | number x =>
    obtain ⟨y, hy⟩ := h x List.mem_cons_self
    exact ⟨.number y, by simp [reread?, hy], rfl⟩
  | operation o a b iha ihb =>
    obtain ⟨a', ha, -⟩ := iha fun x hx => h x (List.mem_append_left _ hx)
    obtain ⟨b', hb, -⟩ := ihb fun x hx => h x (List.mem_append_right _ hx)
    exact ⟨.operation o a' b', by simp [reread?, ha, hb], rfl⟩
  | titleOf v ih =>
    obtain ⟨v', hv, -⟩ := ih h
    exact ⟨.titleOf v', by simp [reread?, hv], rfl⟩
  | relatedTo v ih =>
    obtain ⟨v', hv, -⟩ := ih h
    exact ⟨.relatedTo v', by simp [reread?, hv], rfl⟩
  | randomFrom c ih =>
    obtain ⟨c', hc, -⟩ := ih h
    exact ⟨.randomFrom c', by simp [reread?, hc], rfl⟩

theorem exists_mapM {α : Type} {reread? : α → Option α} : ∀ (as : List α),
    (∀ a ∈ as, ∃ a', reread? a = some a') → ∃ as', as.mapM reread? = some as'
  | [], _ => ⟨[], rfl⟩
  | a :: as, h => by
    obtain ⟨a', ha⟩ := h a List.mem_cons_self
    obtain ⟨as', has⟩ := exists_mapM as fun a ha => h a (List.mem_cons_of_mem _ ha)
    exact ⟨a' :: as', by simp [List.mapM_cons, ha, has]⟩

theorem Statement.exists_reread (s : Statement)
    (h : ∀ x ∈ s.literals, ∃ y, x.reread? = some y) :
    ∃ s', s.reread? = some s' ∧ (Component.statement s').kind = (Component.statement s).kind := by
  cases s with
  | get name => exact ⟨.get name, rfl, rfl⟩
  | set name value =>
    obtain ⟨value', hvalue, -⟩ := value.exists_reread h
    exact ⟨.set name value', by simp [reread?, hvalue], rfl⟩

theorem CommandSequence.exists_reread (s : CommandSequence)
    (h : ∀ x ∈ s.literals, ∃ y, x.reread? = some y) : ∃ s', s.reread? = some s' := by
  obtain ⟨commands, hcommands⟩ := exists_mapM s.commands fun t ht => by
    obtain ⟨t', ht', -⟩ := t.exists_reread fun x hx => h x (List.mem_flatMap.mpr ⟨t, ht, hx⟩)
    exact ⟨t', ht'⟩
  exact ⟨⟨commands⟩, by simp [reread?, hcommands]⟩

theorem Scene.exists_reread (s : Scene) (h : ∀ x ∈ s.literals, ∃ y, x.reread? = some y) :
    ∃ s', s.reread? = some s' ∧ (Component.scene s').kind = (Component.scene s).kind := by
  cases s with
  | text s =>
    simp only [literals, List.mem_append] at h
    obtain ⟨duration, hduration, -⟩ := s.duration.exists_reread fun x hx => h x (by simp [hx])
    obtain ⟨pre, hpre⟩ := s.preCommands.exists_reread fun x hx => h x (by simp [hx])
    obtain ⟨post, hpost⟩ := s.postCommands.exists_reread fun x hx => h x (by simp [hx])
    obtain ⟨text, htext, -⟩ := s.text.exists_reread fun x hx => h x (by simp [hx])
    exact ⟨.text ⟨s.title, s.comment, duration, pre, post, text⟩,
      by simp [reread?, hduration, hpre, hpost, htext], rfl⟩
  | video s =>
    simp only [literals, List.mem_append] at h
    obtain ⟨duration, hduration, -⟩ := s.duration.exists_reread fun x hx => h x (by simp [hx])
    obtain ⟨pre, hpre⟩ := s.preCommands.exists_reread fun x hx => h x (by simp [hx])
    obtain ⟨post, hpost⟩ := s.postCommands.exists_reread fun x hx => h x (by simp [hx])
    obtain ⟨offset, hoffset, -⟩ := s.offset.exists_reread fun x hx => h x (by simp [hx])
    obtain ⟨source, hsource, -⟩ := s.source.exists_reread fun x hx => h x (by simp [hx])
    exact ⟨.video ⟨s.title, s.comment, duration, pre, post, offset, source⟩,
      by simp [reread?, hduration, hpre, hpost, hoffset, hsource], rfl⟩

/-- A component whose numbers can all be reread rereads as one of its kind. -/
theorem Component.exists_reread (c : Component)
    (h : ∀ x ∈ c.literals, ∃ y, x.reread? = some y) :
    ∃ c', c.reread? = some c' ∧ c'.kind = c.kind := by
  cases c with
  | expr e =>
    obtain ⟨e', he, hkind⟩ := e.exists_reread h
    exact ⟨.expr e', by simp [reread?, he], hkind⟩
  | statement s =>
    obtain ⟨s', hs, hkind⟩ := s.exists_reread h
    exact ⟨.statement s', by simp [reread?, hs], hkind⟩
  | scene s =>
    obtain ⟨s', hs, hkind⟩ := s.exists_reread h
    exact ⟨.scene s', by simp [reread?, hs], hkind⟩
  | sequence s =>
    obtain ⟨s', hs⟩ := s.exists_reread h
    exact ⟨.sequence s', by simp [reread?, hs], rfl⟩
  | act a =>
    obtain ⟨scenes, hscenes⟩ := exists_mapM a.scenes fun s hs => by
      obtain ⟨s', hs', -⟩ := s.exists_reread fun x hx => h x (List.mem_flatMap.mpr ⟨s, hs, hx⟩)
      exact ⟨s', hs'⟩
    exact ⟨.act ⟨scenes⟩, by simp [reread?, Act.reread?, hscenes], rfl⟩

/-- What loads as a component was read as an object with its category. -/
theorem Component.ofText_text {c c' : Component} (h : c.loaded? = some c') :
    ofText c.text = .ok c' ∧
      ∃ ms, Json.ofText c.text = .ok (.object ms) ∧ "category" ∈ ms.map Prod.fst := by
  refine ⟨eq_ok_of_toOption (c.ofSource_text.trans h), ?_⟩
  have hread := Json.ofText_compact c.toJson
  have hrest := c.recovers_or_deep
  rw [c.readBack?_toJson] at hread
  cases hms : Json.readBackMembers? (Json.maxDepth - 1) c.members with
  | none =>
    rw [hms, h] at hrest
    cases hrest
  | some ms =>
    rw [hms] at hread
    exact ⟨_, eq_ok_of_toOption hread, List.mem_cons_self⟩

theorem Binary64.exists_reread {x : Binary64}
    (h : ∃ n, Json.ofText (Numeral.real x).text = .ok (.number n)) : ∃ y, x.reread? = some y := by
  obtain ⟨n, hn⟩ := h
  exact ⟨n.toBinary64, by rw [reread?, Numeral.readBack?, hn]; rfl⟩

theorem Binary64.exists_number {x y : Binary64} (h : x.reread? = some y) :
    ∃ n, Json.ofText (Numeral.real x).text = .ok (.number n) := by
  unfold reread? Numeral.readBack? at h
  cases hread : Json.ofText (Numeral.real x).text with
  | error e =>
    rw [hread] at h
    cases h
  | ok json =>
    rw [hread] at h
    cases json with
    | number n => exact ⟨n, rfl⟩
    | _ => cases h

theorem Component.ne_act_of_kind {c c' : Component} (h : ∀ a, c ≠ .act a)
    (hkind : c'.kind = c.kind) : ∀ a, c' ≠ .act a := by
  rintro a rfl
  cases c with
  | act b => exact h b rfl
  | expr e => cases e <;> cases hkind
  | statement s => cases s <;> cases hkind
  | scene s => cases s <;> cases hkind
  | sequence s => cases hkind

/-- The two shapes agree. An act loads the same with its tag put in at any position among the
members of the root, and a component that is no act, but can be read back, is told to be one. -/
theorem Act.document_shapes_agree :
    (∀ (s : String) (ms : List (String × Json)) (a : Act), Json.ofText s = .ok (.object ms) →
      "category" ∉ ms.map Prod.fst → Act.ofText s = .ok a →
        (∃ o : ObjectText, o.text = s ∧ o.IsObject ms) ∧
          ∀ o : ObjectText, o.text = s → o.IsObject ms → ∀ i ≤ o.members.length,
            Act.ofText (o.insert i actTag).text = .ok a) ∧
    ∀ c : Component, (∀ a, c ≠ .act a) →
      (∀ x ∈ c.literals, x.isFinite = true ∧
        ∃ n, Json.ofText (Numeral.real x).text = .ok (.number n)) →
      c.toJson.depth ≤ 127 → Act.ofText c.text = .error (.notAnAct c.kind) := by
  constructor
  · intro s ms a hroot hbare hload
    refine ⟨exists_objectText hroot, ?_⟩
    rintro o rfl ho i hi
    exact Act.ofText_insert ho hbare hload hi
  · intro c hother hnumbers hdepth
    obtain ⟨c', hreread, hkind⟩ := c.exists_reread fun x hx =>
      Binary64.exists_reread (hnumbers x hx).2
    have hloaded : c.loaded? = some c' :=
      (if_pos (show c.toJson.depth ≤ Json.maxDepth from hdepth)).trans hreread
    obtain ⟨hload, ms, hroot, htagged⟩ := Component.ofText_text hloaded
    rw [← hkind]
    exact (Act.ofText_tagged hroot htagged hload).2 (Component.ne_act_of_kind hother hkind)

/-- An act without scenes, with a member that is no part of it. -/
def sampleActText : ObjectText := ⟨"", ["\"scenes\": [] ", " \"note\":1"], "", "\n"⟩

theorem sampleActText_tagged :
    Act.ofText sampleActText.text = .ok ⟨[]⟩ ∧
      Act.ofText (sampleActText.insert 1 actTag).text = .ok ⟨[]⟩ ∧
      Act.ofText (Component.expr (.number (.ofInt 3))).text = .error (.notAnAct .numberValue) := by
  have ho : sampleActText.IsObject [("scenes", .array []), ("note", .number (.integer 1))] :=
    ⟨by simp [IsBlankText, sampleActText],
      .cons (by decide +kernel) (.cons (by decide +kernel) .nil),
      by simp [IsBlankText, sampleActText], by simp [IsBlankText, sampleActText, Symbol.isBlank]⟩
  have hload : Act.ofText sampleActText.text = .ok ⟨[]⟩ := by decide +kernel
  obtain ⟨y, hy⟩ : ∃ y, (Binary64.ofInt 3).reread? = some y :=
    Option.isSome_iff_exists.mp (by decide +kernel)
  have hnumber : ∃ n, Json.ofText (Numeral.real (.ofInt 3)).text = .ok (.number n) :=
    Binary64.exists_number hy
  refine ⟨hload, ?_, ?_⟩
  · exact (Act.document_shapes_agree.1 _ _ _ ho.ofText (by decide) hload).2 _ rfl ho 1 (by decide)
  · refine Act.document_shapes_agree.2 (.expr (.number (.ofInt 3))) (fun a h => by cases h) ?_
      (by decide +kernel)
    intro x hx
    obtain rfl := List.mem_singleton.mp hx
    exact ⟨by decide +kernel, hnumber⟩

end SceneScript
