import SceneScript.Cli.Run
import SceneScript.Proofs.Editor.Extent

/-! Documents written back. A drop writes the script it comes to over the file it was made on. The
text is in one of the two layouts and ends with a line break, so it loads as any other script does:
not at all if it nests too deep, and with each number reread. Nobody looks at either before the
file is written, and the script a drop comes to can nest deeper than the file and the component
did. -/

namespace SceneScript

/-! ## Loading what was written -/

/-- Both layouts are blank between the parts of a value. -/
theorem Config.write_layout (c : Config) (json : Json) :
    ∃ l : Layout, l.IsBlank ∧ c.write json = .ofList (l.chars 0 json) := by
  unfold write
  cases c.pretty with
  | true => exact ⟨.pretty, Layout.pretty_isBlank, congrArg String.ofList (prettyChars_eq 0 json)⟩
  | false =>
    exact ⟨.compact, Layout.compact_isBlank, congrArg String.ofList (compactChars_eq 0 json)⟩

theorem Act.ofText_written (c : Config) (a : Act) :
    (ofText (c.write a.toJson ++ "\n")).toOption = a.loaded? := by
  obtain ⟨l, hl, hwrite⟩ := c.write_layout a.toJson
  have hbreak : ∀ c ∈ ['\n'], (Symbol.char c).isBlank = true :=
    List.forall_mem_singleton.mpr rfl
  rw [hwrite, ← a.ofText_bare hl hbreak, String.ofList_append]

theorem loadAct_written {read : ReadFile} {path : String} {c : Config} {a : Act}
    (h : read path = .ok (c.write a.toJson ++ "\n")) :
    (loadAct read path).toOption = a.loaded? := by
  rw [← a.ofText_written c]
  unfold loadAct
  rw [h]
  exact toOption_mapError _ _

theorem loadAct_written_eq_ok {read : ReadFile} {path : String} {c : Config} {a : Act}
    (h : read path = .ok (c.write a.toJson ++ "\n")) :
    loadAct read path = .ok a ↔ a.loaded? = some a := by
  rw [← loadAct_written h]
  constructor
  · intro hok
    rw [hok]
    rfl
  · exact eq_ok_of_toOption

/-! ## Drops by a drag of their own -/

/-- The gesture once it has begun. -/
def Drag.holding (c : Component) : Drag := ⟨some (.encode c), [.started c]⟩

theorem Drag.start_idle (c : Component) : idle.start c = .ok (holding c) := rfl

/-- A document with the targets of a category highlighted. -/
def Document.lit (d : Document) (c : Category) : Document :=
  { d with root := Site.act.highlight (· == c) d.root }

theorem Document.model_lit (d : Document) (c : Category) : (d.lit c).model = d.model :=
  ActNode.model_highlight _ d.root

theorem Document.highlightFor_eq {d : Document} {p : Payload} {c : Component}
    (hc : p.decode = .ok c) : ∃ n, d.highlightFor p = .ok (d.lit c.category, n) := by
  unfold highlightFor
  rw [hc]
  exact ⟨_, rfl⟩

/-- A component is dropped if its payload can be read and what was read is taken. -/
theorem dropInto_eq_ok {d after : Document} {c : Component} {i : Nat} :
    dropInto d c i = .ok after ↔ ∃ c' drag, (Payload.encode c).decode = .ok c' ∧
      (d.lit c'.category).dropAt (.holding c) i = (after, drag, .ok .dropped) := by
  unfold dropInto
  rw [Drag.start_idle]
  cases hc : (Payload.encode c).decode with
  | error e =>
    have hhover : d.highlightFor (.encode c) = .error e := by
      rw [Document.highlightFor, hc]
      rfl
    simp [hhover, mapError_ok, mapError_error, bind, Except.bind]
  | ok c' =>
    obtain ⟨n, hhover⟩ := Document.highlightFor_eq (d := d) hc
    rw [hhover]
    simp only [mapError_ok, bind, Except.bind]
    constructor
    · intro h
      generalize hdrop : (d.lit c'.category).dropAt _ i = dropped at h
      obtain ⟨d', drag, outcome⟩ := dropped
      cases outcome with
      | error e => cases h
      | ok outcome =>
        cases outcome with
        | cancelled reason => cases h
        | dropped =>
          cases h
          exact ⟨c', drag, rfl, hdrop⟩
    · rintro ⟨_, drag, ⟨⟩, hdrop⟩
      rw [hdrop]
      rfl

/-! ## Runs of a drop -/

/-- What a drop reads, and the document it comes to. -/
structure DropsTo (read : ReadFile) (path : String) (target : Nat) (given : Given) (c : Config)
    (before : Act) (after : Document) : Prop where
  config : loadConfig read = .ok c
  act : loadAct read path = .ok before
  drop : ∃ d component, openDocument before = .ok d ∧ givenComponent given = .ok component ∧
    dropInto (d.setReadOnly c.readOnly) component target = .ok after

theorem DropsTo.run {read : ReadFile} {path : String} {target : Nat} {given : Given} {c : Config}
    {before : Act} {after : Document} (h : DropsTo read path target given c before after) :
    Command.run read (.drop path target given true) =
      ⟨"✓ Updated " ++ path ++ "\n", "", [(path, c.write after.model.toJson ++ "\n")], none⟩ := by
  obtain ⟨hc, hbefore, d, component, hd, hcomponent, hafter⟩ := h
  have hdrop : runDrop c read path target given true =
      .ok ⟨"✓ Updated " ++ path ++ "\n", "",
        [(path, c.write after.model.toJson ++ "\n")], none⟩ := by
    simp only [runDrop, hbefore, hd, hcomponent, hafter, bind, Except.bind, if_true]
  simp only [Command.run, hc, hdrop, bind, Except.bind, Output.ofExcept]

/-- What is read decides the document. -/
theorem DropsTo.unique {read : ReadFile} {path : String} {target : Nat} {given : Given}
    {c c' : Config} {before before' : Act} {after after' : Document}
    (h : DropsTo read path target given c before after)
    (h' : DropsTo read path target given c' before' after') : after = after' := by
  obtain ⟨hc, hbefore, d, component, hd, hcomponent, hafter⟩ := h
  obtain ⟨hc', hbefore', d', component', hd', hcomponent', hafter'⟩ := h'
  cases hc.symm.trans hc'
  cases hbefore.symm.trans hbefore'
  cases hd.symm.trans hd'
  cases hcomponent.symm.trans hcomponent'
  exact Except.ok.inj (hafter.symm.trans hafter')

theorem Output.ofExcept_eq {x : Except Failure Output} (h : (ofExcept x).failure = none) :
    x = .ok (ofExcept x) := by
  cases x with
  | ok o => rfl
  | error f => cases h

/-- A drop that is to be written and does not fail comes to a document. -/
theorem Command.run_drop_ok {read : ReadFile} {path : String} {target : Nat} {given : Given}
    (h : (run read (.drop path target given true)).failure = none) :
    ∃ c before after, DropsTo read path target given c before after := by
  have hrun := Output.ofExcept_eq h
  obtain ⟨c, hc, hdrop⟩ := bind_eq_ok hrun
  obtain ⟨before, hbefore, hdrop⟩ := bind_eq_ok hdrop
  obtain ⟨d, hd, hdrop⟩ := bind_eq_ok hdrop
  obtain ⟨component, hcomponent, hdrop⟩ := bind_eq_ok hdrop
  obtain ⟨after, hafter, -⟩ := bind_eq_ok hdrop
  exact ⟨c, before, after, hc, hbefore, d, component, hd, hcomponent, hafter⟩

/-! ## Documents and components that load as they are -/

theorem openDocument_model {a : Act} {d : Document} (h : openDocument a = .ok d) : d.model = a :=
  Document.model_ofAct (mapError_eq_ok h)

/-- If the document and the component would each load again as they are, the rewritten file does
exactly if the component is not too deep for its place, and otherwise does not load at all. -/
theorem DropsTo.reloads_iff {read : ReadFile} {path : String} {target : Nat} {given : Given}
    {c : Config} {before : Act} {after : Document} {component : Component}
    (h : DropsTo read path target given c before after) (hbefore : before.loaded? = some before)
    (hgiven : givenComponent given = .ok component)
    (hcomponent : component.loaded? = some component) :
    ∃ place, before.places[target]? = some place ∧
      ∀ read' : ReadFile, read' path = .ok (c.write after.model.toJson ++ "\n") →
        (loadAct read' path = .ok after.model ↔ component.toJson.depth + place.levels ≤ 127) ∧
        (127 < component.toJson.depth + place.levels → ∃ f, loadAct read' path = .error f) := by
  obtain ⟨-, -, d, component', hd, hgiven', hafter⟩ := h
  cases hgiven.symm.trans hgiven'
  obtain ⟨component', drag, hdecode, hdrop⟩ := dropInto_eq_ok.mp hafter
  cases (eq_ok_of_toOption ((Payload.decode_encode _).trans hcomponent)).symm.trans hdecode
  have hmodel : ((d.setReadOnly c.readOnly).lit component.category).model = before := by
    rw [Document.model_lit, ← openDocument_model hd]
    exact ActNode.model_setReadOnly _ _
  rw [← hmodel] at hbefore ⊢
  obtain ⟨hdepth, hnumbers⟩ := (Act.loaded?_eq_self _).mp hbefore
  have hpayload : (Drag.holding component).payload = some (.encode component) := rfl
  obtain ⟨place, hplace, hdeep⟩ := Document.depth_dropAt_le_iff hpayload hdecode hdrop hdepth
  refine ⟨place, hplace, fun read' hread => ⟨?_, fun hlevels => ?_⟩⟩
  · rw [loadAct_written_eq_ok hread, Act.loaded?_eq_self, hdeep]
    refine and_iff_left fun x hx => ?_
    rcases Document.mem_literals_dropAt hpayload hdecode hdrop hx with hx | hx
    · exact ((Component.loaded?_eq_self _).mp hcomponent).2 x hx
    · exact hnumbers x hx
  · rw [← Nat.not_le, ← hdeep, Nat.not_le] at hlevels
    exact eq_error_of_toOption ((loadAct_written hread).trans (Act.loaded?_deep hlevels))

/-! ## Drops of nested sums -/

/-- A sum nested in its first operand, `n` levels deep. -/
def Expr.nested : Nat → Expr .number
  | 0 => .gap
  | n + 1 => .operation .add (nested n) .gap

theorem Expr.depth_nested (n : Nat) : (nested n).toJson.depth = n + 1 := by
  induction n with
  | zero => rfl
  | succ n ih =>
    have hgap : (gap : Expr .number).toJson.depth = 1 := rfl
    rw [nested, depth_operation, ih, hgap]
    omega

theorem Expr.literals_nested (n : Nat) : (nested n).literals = [] := by
  induction n with
  | zero => rfl
  | succ n ih => exact congrArg (· ++ []) ih

theorem Component.depth_nested (n : Nat) : (expr (.nested n)).toJson.depth = n + 1 :=
  (depth_toJson _).trans (Expr.depth_nested n)

theorem Component.loaded?_nested {n : Nat} (h : n < 127) :
    (expr (.nested n)).loaded? = some (expr (.nested n)) := by
  have hdepth := depth_nested n
  have hnumbers : (expr (.nested n)).literals = [] := Expr.literals_nested n
  refine loaded?_writable ?_ ⟨?_, ?_⟩
  · simp [hnumbers]
  · simp [hnumbers]
  · omega

/-- A scene that lasts as long as an expression says. -/
def timedScene (e : Expr .number) : Scene := .text ⟨"a", "", e, ⟨[]⟩, ⟨[]⟩, .gap⟩

theorem loaded?_timedScene : (Act.mk [timedScene .gap]).loaded? = some ⟨[timedScene .gap]⟩ := by
  have hnumbers : (Act.mk [timedScene .gap]).literals = [] := rfl
  exact (Act.loaded?_eq_self _).mpr ⟨by decide, by simp [hnumbers]⟩

/-- The place of the duration of the first scene. -/
def durationPlace : Place .act :=
  ⟨.slot .number, .step .scenes (.step (.scene 0) (.step .duration .here))⟩

theorem sampleDocument_dropInto {e : Expr .number}
    (he : (Payload.encode (.expr e)).decode = .ok (.expr e)) :
    ∃ after, dropInto (sampleDocument.setReadOnly false) (.expr e) 2 = .ok after ∧
      after.model = ⟨[timedScene e]⟩ := by
  have hl : Site.act.target? (sampleDocument.lit (.expr .number)).root 2 =
      some ⟨durationPlace, .empty ⟨false, true, 0⟩⟩ := rfl
  obtain ⟨filled, hfill, hmodel⟩ := (Slot.empty ⟨false, true, 0⟩ : Slot .number).fill_eq_ok e
  have hpayload : (Drag.holding (.expr e)).payload = some (.encode (.expr e)) := rfl
  have hdrop := (Document.dropAt_dropped hpayload he).mpr
    ⟨⟨durationPlace, .empty ⟨false, true, 0⟩⟩, filled, hl, rfl, rfl, hfill, rfl, rfl⟩
  refine ⟨_, dropInto_eq_ok.mpr ⟨_, _, he, hdrop⟩, ?_⟩
  refine (Document.model_edited _ hl filled).trans ?_
  change durationPlace.path.putModel (Slot.model filled.part) _ = _
  rw [hmodel]
  rfl

/-- One document, and no configuration. -/
def sampleFiles : ReadFile := fun path =>
  if path = "a.json" then .ok (Config.default.write (Act.toJson ⟨[timedScene .gap]⟩) ++ "\n")
  else .error .notFound

theorem sampleFiles_loadAct : loadAct sampleFiles "a.json" = .ok ⟨[timedScene .gap]⟩ :=
  eq_ok_of_toOption ((loadAct_written (c := .default) (if_pos rfl)).trans loaded?_timedScene)

/-- The drop of a nested sum on the duration. -/
def sampleSum (n : Nat) : Given := .component (Component.expr (.nested n)).text

theorem givenComponent_sampleSum {n : Nat} (h : n < 127) :
    givenComponent (sampleSum n) = .ok (.expr (.nested n)) := by
  have htext := eq_ok_of_toOption
    ((Component.ofSource_text _).trans (Component.loaded?_nested h))
  rw [sampleSum, givenComponent, Component.ofText, htext]
  rfl

theorem sampleFiles_dropsTo {n : Nat} (h : n < 127) :
    ∃ after, DropsTo sampleFiles "a.json" 2 (sampleSum n) .default ⟨[timedScene .gap]⟩ after ∧
      after.model = ⟨[timedScene (.nested n)]⟩ := by
  have hloaded := Component.loaded?_nested h
  have hdecode := eq_ok_of_toOption ((Payload.decode_encode _).trans hloaded)
  obtain ⟨after, hafter, hmodel⟩ := sampleDocument_dropInto hdecode
  exact ⟨after, ⟨rfl, sampleFiles_loadAct, sampleDocument, _, rfl, givenComponent_sampleSum h,
    hafter⟩, hmodel⟩

/-! ## The rewritten file -/

/-- The file a drop was written to loads as the script the drop came to exactly if that script is
within the bounds of the reader; if it nests too deep, it does not load at all. -/
theorem Command.run_drop_reloads {read : ReadFile} {path : String} {target : Nat} {given : Given}
    (h : (run read (.drop path target given true)).failure = none) :
    ∃ c before after, DropsTo read path target given c before after ∧
      ∃ text, (run read (.drop path target given true)).writes = [(path, text)] ∧
        ∀ read' : ReadFile, read' path = .ok text →
          (loadAct read' path = .ok after.model ↔
            after.model.toJson.depth ≤ 127 ∧ ∀ x ∈ after.model.literals, x.reread? = some x) ∧
          (127 < after.model.toJson.depth → ∃ f, loadAct read' path = .error f) := by
  obtain ⟨c, before, after, hafter⟩ := run_drop_ok h
  have hwrites := congrArg Output.writes hafter.run
  refine ⟨c, before, after, hafter, _, hwrites, fun read' hread => ⟨?_, fun hdeep => ?_⟩⟩
  · exact (loadAct_written_eq_ok hread).trans after.model.loaded?_eq_self
  · exact eq_error_of_toOption ((loadAct_written hread).trans (Act.loaded?_deep hdeep))

theorem sampleFiles_run_drop_reloads :
    (Command.run sampleFiles (.drop "a.json" 2 (sampleSum 1) true)).failure = none ∧
      ∃ text, (Command.run sampleFiles (.drop "a.json" 2 (sampleSum 1) true)).writes =
          [("a.json", text)] ∧
        ∀ read' : ReadFile, read' "a.json" = .ok text →
          loadAct read' "a.json" = .ok ⟨[timedScene (.nested 1)]⟩ := by
  obtain ⟨d, hd, hmodel⟩ := sampleFiles_dropsTo (n := 1) (by omega)
  have hok := congrArg Output.failure hd.run
  obtain ⟨_, _, after, hafter, text, hwrites, hreloads⟩ := Command.run_drop_reloads hok
  cases hafter.unique hd
  refine ⟨hok, text, hwrites, fun read' hread => ?_⟩
  have hnumbers : (Act.mk [timedScene (.nested 1)]).literals = [] := rfl
  rw [← hmodel]
  refine (hreloads read' hread).1.mpr ⟨?_, ?_⟩
  · rw [hmodel]
    decide
  · simp [hmodel, hnumbers]

/-- The component can be read, and so can the document; what the drop writes cannot, as the duration
stands three levels deeper than the act. -/
theorem sampleFiles_run_drop_deep :
    (Command.run sampleFiles (.drop "a.json" 2 (sampleSum 124) true)).failure = none ∧
      ∃ after text,
        DropsTo sampleFiles "a.json" 2 (sampleSum 124) .default ⟨[timedScene .gap]⟩ after ∧
        (Command.run sampleFiles (.drop "a.json" 2 (sampleSum 124) true)).writes =
          [("a.json", text)] ∧
        ∀ read' : ReadFile, read' "a.json" = .ok text →
          loadAct read' "a.json" ≠ .ok after.model ∧ ∃ f, loadAct read' "a.json" = .error f := by
  have hgiven := givenComponent_sampleSum (n := 124) (by omega)
  obtain ⟨after, hafter, -⟩ := sampleFiles_dropsTo (n := 124) (by omega)
  obtain ⟨place, hplace, hreloads⟩ := hafter.reloads_iff loaded?_timedScene hgiven
    (Component.loaded?_nested (by omega))
  have hduration : (Act.mk [timedScene .gap]).places[2]? = some durationPlace := rfl
  cases hduration.symm.trans hplace
  have hlevels : durationPlace.levels = 3 := rfl
  refine ⟨congrArg Output.failure hafter.run, after, _, hafter,
    congrArg Output.writes hafter.run, fun read' hread => ?_⟩
  obtain ⟨hloads, hfails⟩ := hreloads read' hread
  rw [Component.depth_nested, hlevels] at hloads hfails
  exact ⟨fun h => absurd (hloads.mp h) (by omega), hfails (by omega)⟩

end SceneScript
