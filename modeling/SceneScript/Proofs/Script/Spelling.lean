import SceneScript.Proofs.Json.Trees
import SceneScript.Proofs.Script.Parts

/-! The spellings of a component. What may stand for each part of a script is said here once, from
the script's side, and loading a text is shown to take exactly the values that spell a component:
the decoder neither looks at the order of members nor takes a part twice, and it goes as deep as
the reader does. -/

namespace SceneScript

/-- A number is any token that reads as it. -/
def Binary64.Spelled (x : Binary64) (json : Json) : Prop := ∃ n, json = .number n ∧ n.toBinary64 = x

/-- A list is written item by item. -/
def Json.Lists {α : Type} (spelled : α → Json → Prop) (as : List α) : Json → Prop
  | .array js => List.Forall₂ spelled as js
  | _ => False

def stringPart (name s : String) : Part := (name, fun json => json = .string s)

def Operator.part : Operator → Part
  | add => typePart "Add" 2
  | subtract => typePart "Subtract" 3
  | multiply => typePart "Multiply" 4

def Expr.parts : {f : Family} → Expr f → List Part
  | _, .gap => [typePart "Gap" 0]
  | _, .number x => [typePart "Value" 1, ("value", x.Spelled)]
  | _, .operation o a b => [o.part, ("op1", Json.Writes a.parts), ("op2", Json.Writes b.parts)]
  | _, .text s => [typePart "Value" 1, stringPart "value" s]
  | _, .titleOf v => [typePart "YoutubeVideoGetTitle" 2, ("video", Json.Writes v.parts)]
  | _, .url s => [typePart "Value" 1, stringPart "value" s]
  | _, .randomFrom c =>
    [typePart "YoutubeVideoCollectionRandom" 2, ("video_collection", Json.Writes c.parts)]
  | _, .relatedTo v => [typePart "YoutubeVideoGetRelated" 1, ("video", Json.Writes v.parts)]

def Statement.parts : Statement → List Part
  | .get name => [typePart "GetVariable" 0, stringPart "name" name]
  | .set name value =>
    [typePart "SetVariable" 1, stringPart "name" name, ("value", Json.Writes value.parts)]

def CommandSequence.parts (s : CommandSequence) : List Part :=
  [("commands", Json.Lists (fun t => Json.Writes t.parts) s.commands)]

def Scene.parts : Scene → List Part
  | .text s =>
    [typePart "Text" 0, stringPart "title" s.title, stringPart "comment" s.comment,
      ("duration", Json.Writes s.duration.parts),
      ("pre_commands", Json.Writes s.preCommands.parts),
      ("post_commands", Json.Writes s.postCommands.parts), ("text", Json.Writes s.text.parts)]
  | .video s =>
    [typePart "Video" 1, stringPart "title" s.title, stringPart "comment" s.comment,
      ("duration", Json.Writes s.duration.parts),
      ("pre_commands", Json.Writes s.preCommands.parts),
      ("post_commands", Json.Writes s.postCommands.parts),
      ("offset", Json.Writes s.offset.parts), ("source", Json.Writes s.source.parts)]

def Act.parts (a : Act) : List Part :=
  [("scenes", Json.Lists (fun s => Json.Writes s.parts) a.scenes)]

namespace Component

/-- The parts beside the category. -/
def innerParts : Component → List Part
  | expr e => e.parts
  | statement s => s.parts
  | scene s => s.parts
  | sequence s => s.parts
  | act a => a.parts

/-- The category, which is given by name, and the parts beside it share one object or list. -/
def Spelled (c : Component) : Json → Prop :=
  Json.Writes (stringPart "category" (tag c.category) :: c.innerParts)

end Component

/-! ## Every shape -/

def Shape.Spelled : (s : Shape) → s.Value → Json → Prop
  | .real, x => x.Spelled
  | .string, s => fun json => json = .string s
  | .expr _, e => Json.Writes e.parts
  | .statement, s => Json.Writes s.parts
  | .statements, ss => Json.Lists (fun s => Json.Writes s.parts) ss
  | .sequence, s => Json.Writes s.parts
  | .scene, s => Json.Writes s.parts
  | .scenes, ss => Json.Lists (fun s => Json.Writes s.parts) ss
  | .act, a => Json.Writes a.parts

theorem Shape.form_wellNamed (s : Shape) : s.form.WellNamed := by
  cases s with
  | expr f => cases f <;> decide
  | _ => decide

theorem Expr.form_parts {f : Family} {e : Expr f} {parts : List Part} :
    Form.Parts Shape.Spelled e (Shape.form (.expr f)) parts ↔ parts = e.parts := by
  constructor
  · intro h
    cases h with
    | choice r hi hr =>
      rename_i i v
      cases f
      · rcases i with _ | _ | _ | _ | _ | i <;> cases hi <;> cases hr <;> rfl
      · rcases i with _ | _ | _ | i <;> cases hi <;> cases hr <;> rfl
      · rcases i with _ | _ | _ | i <;> cases hi <;> cases hr <;> rfl
      · rcases i with _ | _ | i <;> cases hi <;> cases hr <;> rfl
  · rintro rfl
    cases e with
    | @gap f => cases f <;> exact .choice (i := 0) (v := Shape.gapVariant _) () rfl rfl
    | number x => exact .choice (i := 1) (v := (Shape.exprVariants .number)[1]) (x, ()) rfl rfl
    | operation o a b =>
      cases o with
      | add => exact .choice (i := 2) (v := Shape.operationVariant .add) (a, b, ()) rfl rfl
      | subtract => exact .choice (i := 3) (v := Shape.operationVariant .subtract) (a, b, ()) rfl rfl
      | multiply => exact .choice (i := 4) (v := Shape.operationVariant .multiply) (a, b, ()) rfl rfl
    | text s => exact .choice (i := 1) (v := (Shape.exprVariants .text)[1]) (s, ()) rfl rfl
    | titleOf v => exact .choice (i := 2) (v := (Shape.exprVariants .text)[2]) (v, ()) rfl rfl
    | url s => exact .choice (i := 1) (v := (Shape.exprVariants .video)[1]) (s, ()) rfl rfl
    | randomFrom c => exact .choice (i := 2) (v := (Shape.exprVariants .video)[2]) (c, ()) rfl rfl
    | relatedTo v =>
      exact .choice (i := 1) (v := (Shape.exprVariants .collection)[1]) (v, ()) rfl rfl

theorem Statement.form_parts {s : Statement} {parts : List Part} :
    Form.Parts Shape.Spelled s Shape.statement.form parts ↔ parts = s.parts := by
  constructor
  · intro h
    cases h with
    | choice r hi hr =>
      rename_i i v
      rcases i with _ | _ | i <;> cases hi <;> cases hr <;> rfl
  · rintro rfl
    cases s with
    | get name => exact .choice (i := 0) (v := Shape.statementVariants[0]) (name, ()) rfl rfl
    | set name value =>
      exact .choice (i := 1) (v := Shape.statementVariants[1]) (name, value, ()) rfl rfl

theorem Scene.form_parts {s : Scene} {parts : List Part} :
    Form.Parts Shape.Spelled s Shape.scene.form parts ↔ parts = s.parts := by
  constructor
  · intro h
    cases h with
    | choice r hi hr =>
      rename_i i v
      rcases i with _ | _ | i <;> cases hi <;> cases hr <;> rfl
  · rintro rfl
    cases s with
    | text s =>
      exact .choice (i := 0) (v := Shape.sceneVariants[0])
        (s.title, s.comment, s.duration, s.preCommands, s.postCommands, s.text, ()) rfl rfl
    | video s =>
      exact .choice (i := 1) (v := Shape.sceneVariants[1])
        (s.title, s.comment, s.duration, s.preCommands, s.postCommands, s.offset, s.source, ())
        rfl rfl

theorem CommandSequence.form_parts {s : CommandSequence} {parts : List Part} :
    Form.Parts Shape.Spelled s Shape.sequence.form parts ↔ parts = s.parts := by
  constructor
  · intro h
    cases h with
    | record r hr => cases hr; rfl
  · rintro rfl
    exact .record (v := Shape.sequenceRecord) (s.commands, ()) rfl

theorem Act.form_parts {a : Act} {parts : List Part} :
    Form.Parts Shape.Spelled a Shape.act.form parts ↔ parts = a.parts := by
  constructor
  · intro h
    cases h with
    | record r hr => cases hr; rfl
  · rintro rfl
    exact .record (v := Shape.actRecord) (a.scenes, ()) rfl

/-! ## Decoding a value -/

theorem decodeList_iff {α : Type} {decode : Json → Except Fault α}
    {spelled : α → Json → Prop} : ∀ {js : List Json} {as : List α},
    (∀ a, ∀ json ∈ js, decode json = .ok a ↔ spelled a json) →
      (decodeList decode js = .ok as ↔ Json.Lists spelled as (.array js))
  | [], as, _ => by
    constructor
    · intro h
      cases h
      exact .nil
    · intro h
      cases h
      rfl
  | json :: js, as, h => by
    have htail : ∀ as, decodeList decode js = .ok as ↔ Json.Lists spelled as (.array js) :=
      fun as => decodeList_iff fun a j hj => h a j (List.mem_cons_of_mem _ hj)
    constructor
    · intro hlist
      obtain ⟨a, ha, hlist⟩ := bind_eq_ok hlist
      obtain ⟨as, has, hlist⟩ := bind_eq_ok hlist
      cases hlist
      exact .cons ((h a json List.mem_cons_self).mp ha) ((htail as).mp has)
    · intro hlist
      cases hlist with
      | cons ha has =>
        rename_i a as
        change (decode json >>= fun a => decodeList decode js >>= fun as => .ok (a :: as)) = _
        rw [(h a json List.mem_cons_self).mpr ha, bind_ok, (htail as).mpr has]
        rfl

/-- A value of parts is taken exactly where its parts are written. -/
theorem Shape.decode_parts {depth : Nat}
    (hshallow : ∀ (s : Shape) (v : s.Value) (json : Json), json.depth < depth →
      ((Shape.decode depth).Takes s v json ↔ s.Spelled v json))
    {s : Shape} (hs : s.form.hasParts = true) {v : s.Value} {own : List Part}
    (hown : ∀ {parts}, Form.Parts Shape.Spelled v s.form parts ↔ parts = own) {json : Json}
    (hdepth : json.depth ≤ depth) :
    Shape.decode (depth + 1) s json = .ok v ↔ Json.Writes own json := by
  refine (Form.decode_iff s.form_wellNamed hs json v).trans ?_
  constructor
  · rintro ⟨parts, hparts, hwrites⟩
    obtain ⟨others, hothers, hsame⟩ := hparts.same hshallow
    rw [← hown.mp hothers]
    exact (hsame.writes hdepth).mp hwrites
  · intro hwrites
    obtain ⟨others, hothers, hsame⟩ :=
      (hown.mpr rfl).same fun s v json hjson => (hshallow s v json hjson).symm
    exact ⟨others, hothers, (hsame.writes hdepth).mp hwrites⟩

/-- A list is taken item by item. -/
theorem Shape.decode_items {depth : Nat} {item : Shape}
    (hshallow : ∀ (v : item.Value) (json : Json), json.depth < depth →
      (Shape.decode depth item json = .ok v ↔ item.Spelled v json))
    {vs : List item.Value} {json : Json} (hdepth : json.depth ≤ depth) :
    Form.decode (Shape.decode depth) (.list item id) json = .ok vs ↔
      Json.Lists item.Spelled vs json := by
  cases json with
  | array js =>
    have hitems : ∀ (v : item.Value), ∀ json ∈ js,
        Shape.decode depth item json = .ok v ↔ item.Spelled v json := fun v json hjson =>
      hshallow v json (Nat.lt_of_le_of_lt (depth_le_of_mem hjson) hdepth)
    refine Iff.trans ?_ (decodeList_iff hitems)
    change (decodeList (Shape.decode depth item) js >>= fun vs => .ok vs) = _ ↔ _
    rw [show (fun vs : List item.Value => (Except.ok vs : Except Fault _)) = pure from rfl, bind_pure]
  | _ => exact ⟨nofun, False.elim⟩

/-- The decoder takes the spellings of a value, as deep as it goes. -/
theorem Shape.decode_iff {depth : Nat} (s : Shape) (v : s.Value) {json : Json}
    (hdepth : json.depth < depth) : Shape.decode depth s json = .ok v ↔ s.Spelled v json := by
  induction depth generalizing s json with
  | zero => cases hdepth
  | succ depth ih =>
    have hshallow : ∀ (s : Shape) (v : s.Value) (json : Json), json.depth < depth →
        ((Shape.decode depth).Takes s v json ↔ s.Spelled v json) := fun s v json => ih s v
    have hle := Nat.le_of_lt_succ hdepth
    cases s with
    | real =>
      cases json with
      | number n =>
        constructor
        · intro h
          cases h
          exact ⟨n, rfl, rfl⟩
        · rintro ⟨m, hm, rfl⟩
          cases hm
          rfl
      | _ => exact ⟨nofun, fun ⟨_, h, _⟩ => nomatch h⟩
    | string =>
      cases json with
      | string t =>
        constructor
        · intro h
          cases h
          rfl
        · intro h
          cases h
          rfl
      | _ => exact ⟨nofun, nofun⟩
    | statements => exact Shape.decode_items (hshallow .statement) hle
    | scenes => exact Shape.decode_items (hshallow .scene) hle
    | expr f => exact Shape.decode_parts hshallow rfl Expr.form_parts hle
    | statement => exact Shape.decode_parts hshallow rfl Statement.form_parts hle
    | sequence => exact Shape.decode_parts hshallow rfl CommandSequence.form_parts hle
    | scene => exact Shape.decode_parts hshallow rfl Scene.form_parts hle
    | act => exact Shape.decode_parts hshallow rfl Act.form_parts hle

/-! ## Behind the category -/

namespace Component

theorem decodeTag_category {json : Json} {c : Category} :
    decodeTag .name tags json = .ok c ↔ json = .string (tag c) := by
  cases json with
  | string name =>
    refine (findVariant_iff (by decide)).trans ?_
    constructor
    · intro h
      obtain ⟨other, -, heq⟩ := List.mem_map.mp h
      cases heq
      rfl
    · intro h
      cases h
      refine List.mem_map.mpr ⟨c, ?_, rfl⟩
      cases c with
      | expr f => cases f <;> decide
      | _ => decide
  | number n =>
    refine ⟨fun h => ?_, fun h => by cases h⟩
    cases n with
    | integer i =>
      simp only [decodeTag, reduceCtorEq, false_and, if_false] at h
    | real x => cases h
  | _ => exact iff_of_false (fun h => by cases h) fun h => by cases h

theorem form_parts (c : Category) {v : c.shape.Value} {parts : List Part} :
    Form.Parts Shape.Spelled v c.shape.form parts ↔ parts = (c.component v).innerParts := by
  cases c with
  | expr f => exact Expr.form_parts
  | statement => exact Statement.form_parts
  | scene => exact Scene.form_parts
  | sequence => exact CommandSequence.form_parts
  | act => exact Act.form_parts

theorem category_component : ∀ (c : Category) (v : c.shape.Value), (c.component v).category = c
  | .expr _, _ | .statement, _ | .scene, _ | .sequence, _ | .act, _ => rfl

theorem exists_value : ∀ comp : Component, ∃ (c : Category) (v : c.shape.Value), comp = c.component v
  | .expr (f := f) e => ⟨.expr f, e, rfl⟩
  | .statement s => ⟨.statement, s, rfl⟩
  | .scene s => ⟨.scene, s, rfl⟩
  | .sequence s => ⟨.sequence, s, rfl⟩
  | .act a => ⟨.act, a, rfl⟩

theorem sameParts_category {c : Category} {parts others : List Part}
    (h : SameParts Json.maxDepth parts others) {json : Json} (hdepth : json.depth ≤ Json.maxDepth) :
    Json.Writes (("category", fun json => decodeTag .name tags json = .ok c) :: parts) json ↔
      Json.Writes (stringPart "category" (tag c) :: others) json := by
  have hwhole : SameParts Json.maxDepth
      (("category", fun json => decodeTag .name tags json = .ok c) :: parts)
      (stringPart "category" (tag c) :: others) :=
    .cons ⟨rfl, fun _ _ => decodeTag_category⟩ h
  exact hwhole.writes hdepth

/-- What stands behind the category decodes to a component exactly if the whole spells it. -/
theorem split_decodeBody_iff {body : Body} (hdepth : body.toJson.depth ≤ Json.maxDepth)
    (comp : Component) :
    (∃ c rest, body.split "category" .name tags = .ok (c, rest) ∧ decodeBody c rest = .ok comp) ↔
      comp.Spelled body.toJson := by
  have hshallow : ∀ (s : Shape) (v : s.Value) (json : Json), json.depth < Json.maxDepth →
      ((Shape.decode Json.maxDepth).Takes s v json ↔ s.Spelled v json) :=
    fun s v json h => Shape.decode_iff s v h
  constructor
  · rintro ⟨c, rest, hsplit, hdecode⟩
    obtain ⟨v, hv, heq⟩ := bind_eq_ok hdecode
    cases heq
    obtain ⟨parts, hparts, hwrites⟩ :=
      (Form.decodeBody_iff c.shape.form_wellNamed rest v).mp hv
    have hwhole := (Body.split_iff (hparts.category_notMem c.shape.form_wellNamed) body).mp
      ⟨rest, hsplit, hwrites⟩
    obtain ⟨others, hothers, hsame⟩ := hparts.same hshallow
    have hspelled := (sameParts_category hsame hdepth).mp hwhole
    unfold Spelled
    rwa [category_component, ← (form_parts c).mp hothers]
  · intro hspelled
    obtain ⟨c, v, rfl⟩ := comp.exists_value
    obtain ⟨parts, hparts, hsame⟩ :
        ∃ parts, Form.Parts (Shape.decode Json.maxDepth).Takes v c.shape.form parts ∧
          SameParts Json.maxDepth (c.component v).innerParts parts :=
      ((form_parts c).mpr rfl).same fun s v json hjson => (hshallow s v json hjson).symm
    unfold Spelled at hspelled
    rw [category_component] at hspelled
    have hwhole := (sameParts_category hsame.symm hdepth).mpr hspelled
    obtain ⟨rest, hsplit, hwrites⟩ :=
      (Body.split_iff (hparts.category_notMem c.shape.form_wellNamed) body).mpr hwhole
    have hv := (Form.decodeBody_iff c.shape.form_wellNamed rest v).mpr ⟨parts, hparts, hwrites⟩
    refine ⟨c, rest, hsplit, ?_⟩
    rw [decodeBody, hv]
    rfl

/-! ## The root where it stands -/

variable {n depth : Nat} {src rest : Source} {json : Json}

theorem decodeTag_name (json : Json) :
    (decodeTag .name tags json).toOption =
      json.string?.bind fun name => (findVariant tags name).toOption := by
  cases json with
  | number n =>
    cases n with
    | integer i => simp [decodeTag, Json.string?, Except.toOption]
    | real x => rfl
  | _ => rfl

theorem readTag_read (h : Json.readValue n depth src = .ok (json, rest)) :
    (readTag n src).toOption = (decodeTag .name tags json).toOption.map (·, rest) := by
  rw [readTag, toOption_bind_read (Json.readText_read h _), decodeTag_name]
  cases json.string? with
  | none => rfl
  | some name =>
    change (findVariant tags name >>= _).toOption = (findVariant tags name).toOption.map _
    cases findVariant tags name <;> rfl

/-- What the root takes from a member that was read. -/
def takeMember (root : Root) (m : String × Json) : Option Root :=
  if m.1 = "category" then
    match root.category with
    | some _ => none
    | none => (decodeTag .name tags m.2).toOption.map fun c => { root with category := some c }
  else some { root with rest := m :: root.rest }

theorem readRootMember_read (root : Root) (key : String) {colon value : Source}
    (hcolon : Json.readColon colon = .ok value)
    (h : Json.readValue n (Json.maxDepth - 1) value = .ok (json, rest)) :
    (readRootMember n root key colon).toOption =
      (takeMember root (key, json)).map (·, rest) := by
  unfold readRootMember takeMember
  by_cases hkey : key = "category"
  · simp only [if_pos hkey]
    cases root.category with
    | some c => rfl
    | none =>
      simp only [hcolon, bind_ok]
      rw [toOption_bind_read (readTag_read h)]
      cases (decodeTag .name tags json).toOption <;> rfl
  · simp only [if_neg hkey, hcolon, bind_ok, h]
    rfl

theorem takeTag_cons {α : Type} (tag : String) (decode : Json → Except Fault α) (found : Option α)
    (key : String) (json : Json) (ms : List (String × Json)) :
    takeTag tag decode found ((key, json) :: ms) =
      if key = tag then
        match found with
        | some _ => .error (.duplicateField tag)
        | none => decode json >>= fun a => takeTag tag decode (some a) ms
      else (takeTag tag decode found ms).map fun r => (r.1, (key, json) :: r.2) := by
  cases found <;> rfl

theorem foldlM_takeMember : ∀ (ms : List (String × Json)) (root : Root),
    ((ms.foldlM takeMember root).bind fun root =>
      root.category.map fun c => (c, Body.members root.rest.reverse)) =
        (takeTag "category" (decodeTag .name tags) root.category ms).toOption.map fun r =>
          (r.1, .members (root.rest.reverse ++ r.2))
  | [], ⟨found, done⟩ => by
    cases found <;> simp [takeTag, Except.toOption]
  | (key, json) :: ms, ⟨found, done⟩ => by
    rw [List.foldlM_cons, takeTag_cons]
    by_cases hkey : key = "category"
    · simp only [takeMember, if_pos hkey]
      cases found with
      | some c => rfl
      | none =>
        cases decodeTag .name tags json with
        | error e => rfl
        | ok c => exact foldlM_takeMember ms ⟨some c, done⟩
    · simp only [takeMember, if_neg hkey]
      refine (foldlM_takeMember ms ⟨found, (key, json) :: done⟩).trans ?_
      rw [toOption_map]
      cases takeTag "category" (decodeTag .name tags) found ms <;> simp [Except.toOption]

/-- What the root takes from an item that was read. -/
def takeItem (root : Option Category × List Json) (json : Json) :
    Option (Option Category × List Json) :=
  match root.1 with
  | none => (decodeTag .name tags json).toOption.map fun c => (some c, root.2)
  | some c => some (some c, json :: root.2)

theorem readRootItem_read (root : Option Category × List Json)
    (h : Json.readValue n (Json.maxDepth - 1) src = .ok (json, rest)) :
    (readRootItem n root src).toOption = (takeItem root json).map (·, rest) := by
  obtain ⟨category, items⟩ := root
  cases category with
  | none =>
    simp only [readRootItem, takeItem]
    rw [toOption_bind_read (readTag_read h)]
    cases (decodeTag .name tags json).toOption <;> rfl
  | some c =>
    simp only [readRootItem, takeItem, h, bind_ok]
    rfl

theorem foldlM_takeItem (c : Category) : ∀ (js items : List Json),
    js.foldlM takeItem (some c, items) = some (some c, js.reverse ++ items)
  | [], _ => rfl
  | json :: js, items => by
    rw [List.foldlM_cons]
    refine (foldlM_takeItem c js (json :: items)).trans ?_
    simp

/-- The category of the root and what stands beside it, told from the value that stands there. -/
theorem readRoot_read (h : Json.readValue n Json.maxDepth src = .ok (json, rest)) :
    (readRoot n src).toOption =
      (json.body?.bind fun body => (body.split "category" .name tags).toOption).map
        (·, rest) := by
  obtain ⟨hflat, hfound, hany⟩ | ⟨d, behind, items, hd, rfl, hsrc, hlength, hitems⟩ |
    ⟨d, behind, ms, hd, rfl, hsrc, hlength, hms⟩ := Json.readValue_cases h
  · have hbody : json.body? = none := by
      cases json with
      | array items => simp [Json.depth] at hflat
      | object ms => simp [Json.depth] at hflat
      | _ => rfl
    have hopen := hany 0
    rw [hbody]
    unfold readRoot
    unfold Json.readValue at hopen
    split
    · rename_i heq
      simp [heq] at hopen
    · rename_i heq
      simp [heq] at hopen
    · exact (toOption_bind _ _).trans (Option.bind_fun_none _)
  · obtain rfl : d = Json.maxDepth - 1 := by omega
    have hfold := hitems.fold (fun acc => readRootItem_read acc) hlength (none, [])
    unfold readRoot
    rw [hsrc]
    refine (toOption_bind_read hfold _).trans ?_
    cases items with
    | nil => rfl
    | cons json items =>
      have htail := fun c => foldlM_takeItem c items []
      change (((decodeTag .name tags json).toOption.map fun c => (some c, [])).bind _).bind _ =
        ((decodeTag .name tags json >>= fun c => .ok (c, Body.items items)).toOption).map _
      cases decodeTag .name tags json with
      | error e => rfl
      | ok c =>
        change (items.foldlM takeItem (some c, [])).bind _ = _
        rw [htail]
        simp [Except.toOption, bind, Except.bind]
  · obtain rfl : d = Json.maxDepth - 1 := by omega
    have hfold := hms.fold (fun acc key => readRootMember_read acc key) hlength ⟨none, []⟩
    have hsplit := foldlM_takeMember ms ⟨none, []⟩
    unfold readRoot
    rw [hsrc]
    refine (toOption_bind_read hfold _).trans ?_
    change _ = ((takeTag "category" (decodeTag .name tags) none ms >>= fun r =>
      .ok (r.1, Body.members r.2)).toOption).map _
    have hrest : (ms.foldlM takeMember ⟨none, []⟩).bind (fun root =>
        (match root.category with
          | some c => .ok ((c, Body.members root.rest.reverse), rest)
          | none => .error (.missingField "category") : Except Fault _).toOption) =
        ((ms.foldlM takeMember ⟨none, []⟩).bind fun root =>
          root.category.map fun c => (c, Body.members root.rest.reverse)).map (·, rest) := by
      cases ms.foldlM takeMember ⟨none, []⟩ with
      | none => rfl
      | some root => cases h : root.category <;> simp [h, Except.toOption]
    refine hrest.trans ?_
    rw [hsplit]
    cases takeTag "category" (decodeTag .name tags) none ms <;> rfl

theorem finish_of_blank {α : Type} {a : α} (h : skipBlank rest = []) :
    finish (a, rest) = .ok a := if_pos h

theorem eq_toJson_of_body? {body : Body} (h : json.body? = some body) : json = body.toJson := by
  cases json with
  | array js => cases h; rfl
  | object ms => cases h; rfl
  | _ => cases h

/-- A text that says an object or a list loads if its category can be split off and what is beside
it decodes. -/
theorem ofText_eq_ok_iff {t : String} {body : Body} (h : Json.ofText t = .ok body.toJson)
    (comp : Component) : ofText t = .ok comp ↔
      ∃ c rest, body.split "category" .name tags = .ok (c, rest) ∧ decodeBody c rest = .ok comp := by
  obtain ⟨behind, hread, hblank⟩ := Json.ofSource_eq_ok h
  have hroot := readRoot_read hread
  have hbody : body.toJson.body? = some body := by cases body <;> rfl
  rw [hbody, Option.bind_some] at hroot
  constructor
  · intro hload
    obtain ⟨⟨⟨c, rest⟩, behind'⟩, hok, hload⟩ := bind_eq_ok hload
    obtain ⟨comp', hdecode, hload⟩ := bind_eq_ok hload
    obtain ⟨r, hsplit, heq⟩ := Option.map_eq_some_iff.mp (hroot.symm.trans (by rw [hok]; rfl))
    cases heq
    rw [finish_of_blank hblank] at hload
    cases hload
    exact ⟨c, rest, eq_ok_of_toOption hsplit, hdecode⟩
  · rintro ⟨c, rest, hsplit, hdecode⟩
    have hok : readRoot (Json.bound (.ofString t)) (.ofString t) = .ok ((c, rest), behind) :=
      eq_ok_of_toOption (hroot.trans (by rw [hsplit]; rfl))
    rw [ofText, ofSource, hok, bind_ok]
    simp only [hdecode, bind_ok, finish_of_blank hblank]

theorem ofText_error {t : String} {json : Json} (h : Json.ofText t = .ok json)
    (hbody : json.body? = none) : ∃ e, ofText t = .error e := by
  obtain ⟨behind, hread, -⟩ := Json.ofSource_eq_ok h
  obtain ⟨e, he⟩ := eq_error_of_toOption ((readRoot_read hread).trans (by rw [hbody]; rfl))
  exact ⟨e, by rw [ofText, ofSource, he, bind_error]⟩

/-- Where the reader takes a text, the text loads as a component exactly if what it says spells
the component. -/
theorem ofText_eq_ok_iff_spelled {t : String} {json : Json} (h : Json.ofText t = .ok json)
    (comp : Component) : ofText t = .ok comp ↔ comp.Spelled json := by
  cases hbody : json.body? with
  | none =>
    obtain ⟨e, he⟩ := ofText_error h hbody
    rw [he]
    refine ⟨nofun, fun hspelled => ?_⟩
    cases json with
    | array js => cases hbody
    | object ms => cases hbody
    | _ => exact hspelled.elim
  | some body =>
    obtain rfl := eq_toJson_of_body? hbody
    exact (ofText_eq_ok_iff h comp).trans (split_decodeBody_iff (Json.depth_ofText h) comp)

end Component

/-- A sum with its tag given by position, its members in another order, one operand as a list, and
twice a member that is no part. -/
def sampleSpelling : String :=
  "\x7b\"x\":1,\"op2\":[\"Gap\"],\"type\":2,\"op1\":\x7b\"value\":5,\"type\":\"Value\"\x7d,"
    ++ "\"x\":2,\"category\":\"Number\"\x7d"

def sampleSpellingTree : Json :=
  .object [("x", .number (.integer 1)), ("op2", .array [.string "Gap"]),
    ("type", .number (.integer 2)),
    ("op1", .object [("value", .number (.integer 5)), ("type", .string "Value")]),
    ("x", .number (.integer 2)), ("category", .string "Number")]

theorem sampleSpelling_loads :
    Json.ofText sampleSpelling = .ok sampleSpellingTree ∧
      Component.ofText sampleSpelling =
        .ok (.expr (.operation .add (.number (.ofInt 5)) .gap)) := by
  have hread : Json.ofText sampleSpelling = .ok sampleSpellingTree := by decide +kernel
  have hspelled : Component.Spelled (.expr (.operation .add (.number (.ofInt 5)) .gap))
      sampleSpellingTree := by
    simp [Component.Spelled, sampleSpellingTree, Json.Writes, Component.innerParts, Expr.parts,
      stringPart, Operator.part, typePart, Component.tag, Component.category, Binary64.Spelled,
      Numeral.toBinary64]
  exact ⟨hread, (Component.ofText_eq_ok_iff_spelled hread _).mpr hspelled⟩

end SceneScript
