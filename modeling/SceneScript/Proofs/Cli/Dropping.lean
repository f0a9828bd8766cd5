import SceneScript.Proofs.Cli.Checking
import SceneScript.Proofs.Cli.Rewriting
import SceneScript.Proofs.Editor.Commuting
import SceneScript.Proofs.Editor.Dragging
import SceneScript.Proofs.Editor.Finite
import SceneScript.Proofs.Editor.Rebuilding
import SceneScript.Proofs.Script.Rereading

/-! When the drop of a component succeeds. Whatever was read can be carried: its numbers are finite
and it nests no deeper than the reader goes, so its text on the way is read again. Then nothing is
left to fail but what was asked for, and a drop that fails for that prints and writes nothing. -/

namespace SceneScript

/-! ## What can be carried -/

/-- What a drop is given has finite numbers and nests no deeper than the reader goes. -/
theorem givenComponent_bounds {given : Given} {c : Component} (h : givenComponent given = .ok c) :
    (∀ x ∈ c.literals, x.isFinite = true) ∧ c.toJson.depth ≤ Json.maxDepth := by
  cases given with
  | component json => exact Component.loaded_bounds (mapError_eq_ok h)
  | palette label =>
    unfold givenComponent at h
    dsimp only at h
    cases hentry : Palette.find? label with
    | none =>
      rw [hentry] at h
      cases h
    | some entry =>
      rw [hentry] at h
      cases h
      exact Palette.entries_bounds entry (List.mem_of_find?_eq_some hentry)

/-- The text of a component with finite numbers is read again, unless it nests too deep. -/
theorem Component.exists_copy {c : Component} (hfinite : ∀ x ∈ c.literals, x.isFinite = true)
    (hdepth : c.toJson.depth ≤ Json.maxDepth) : ∃ copy, (Payload.encode c).decode = .ok copy := by
  obtain ⟨copy, hcopy, -⟩ :=
    c.exists_reread fun x hx => Binary64.exists_reread_of_finite (hfinite x hx)
  exact ⟨copy, eq_ok_of_toOption ((Payload.decode_encode c).trans ((if_pos hdepth).trans hcopy))⟩

/-- A copy differs from what was sent in its numbers only. -/
theorem Component.reread?_of_decode {c copy : Component}
    (h : (Payload.encode c).decode = .ok copy) : c.reread? = some copy :=
  loaded?_reread ((Payload.decode_encode c).symm.trans (congrArg Except.toOption h))

/-! ## What targets take -/

theorem BuildsWith.ok_iff {α : Type} {names : List String} {x : Except EditorError α}
    (h : BuildsWith names x) : (∃ a, x = .ok a) ↔ ∀ name ∈ names, name ∈ variableNames := by
  refine ⟨fun ⟨a, ha⟩ name hname => ?_, h.exists_ok⟩
  unfold BuildsWith at h
  cases hfind : names.find? (· ∉ variableNames) with
  | none => simpa using List.find?_eq_none.mp hfind name hname
  | some unknown =>
    rw [hfind] at h
    cases h.symm.trans ha

/-! ## Drops in an opened document -/

variable {a : Act} {d : Document} {component copy : Component} {i : Nat}

theorem openDocument_iff : (∃ d, openDocument a = .ok d) ↔
    ∀ name ∈ a.variables, name ∈ variableNames := by
  rw [← (ActNode.buildsWith a).ok_iff]
  unfold openDocument Document.ofAct
  cases ActNode.build a with
  | error e => exact ⟨nofun, nofun⟩
  | ok root => exact ⟨fun _ => ⟨root, rfl⟩, fun _ => ⟨_, rfl⟩⟩

theorem openDocument_lit_model (hd : openDocument a = .ok d) (r : Bool) (c : Category) :
    ((d.setReadOnly r).lit c).model = a := by
  rw [Document.model_lit, ← openDocument_model hd]
  exact ActNode.model_setReadOnly _ _

/-- The number of a place is that of its target, enabled unless the document is read-only. -/
theorem openDocument_target? (hd : openDocument a = .ok d) (r : Bool) (c : Category)
    {place : Place .act} :
    (∃ part, Site.act.target? ((d.setReadOnly r).lit c).root i = some ⟨place, part⟩) ↔
      a.places[i]? = some place := by
  have hplaces : Site.act.places ((d.setReadOnly r).lit c).root = a.places := by
    rw [← openDocument_lit_model hd r c]
    exact ActNode.places_model _
  rw [← hplaces]
  exact ⟨fun ⟨part, hl⟩ => (Site.target?_eq_some hl).1, Site.exists_target?⟩

theorem openDocument_isEnabled (hd : openDocument a = .ok d) (r : Bool) (c : Category)
    {l : Site.Located .act} (hl : Site.act.target? ((d.setReadOnly r).lit c).root i = some l) :
    l.place.target.isEnabled l.part = !r := by
  have hopened : Document.ofAct a = .ok d := mapError_eq_ok hd
  have hsettled := ((Document.settled_ofAct hopened).setReadOnly r).highlight (· == c)
  exact Target.isEnabled_of_settled (hsettled.get? (Site.target?_eq_some hl).2)

/-- A component that can be carried is dropped exactly if there is a target of that number, the
document may be written, the categories are the same and the names are known. -/
theorem dropInto_iff (hd : openDocument a = .ok d) (r : Bool)
    (hcopy : (Payload.encode component).decode = .ok copy) :
    (∃ after, dropInto (d.setReadOnly r) component i = .ok after) ↔
      ∃ place, a.places[i]? = some place ∧ r = false ∧
        place.target.category = component.category ∧
        ∀ name ∈ component.variables, name ∈ variableNames := by
  have hreread := Component.reread?_of_decode hcopy
  have hpayload : (Drag.holding component).payload = some (.encode component) := rfl
  rw [← Component.category_reread? hreread, ← Component.variables_reread? hreread]
  constructor
  · rintro ⟨after, hafter⟩
    obtain ⟨copy', drag, hcopy', hdrop⟩ := dropInto_eq_ok.mp hafter
    cases hcopy.symm.trans hcopy'
    obtain ⟨l, e, hl, henabled, haccepts, haccept, -⟩ :=
      (Document.dropAt_dropped hpayload hcopy).mp hdrop
    rw [openDocument_isEnabled hd r copy.category hl, Bool.not_eq_true'] at henabled
    exact ⟨l.place, (openDocument_target? hd r copy.category).mp ⟨l.part, hl⟩, henabled,
      (eq_of_beq haccepts).symm, (Target.buildsWith_accept haccepts l.part).ok_iff.mp ⟨e, haccept⟩⟩
  · rintro ⟨place, hplace, rfl, hcategory, hnames⟩
    obtain ⟨part, hl⟩ := (openDocument_target? hd false copy.category).mpr hplace
    have haccepts : place.target.accepts copy = true := beq_iff_eq.mpr hcategory.symm
    obtain ⟨e, haccept⟩ := (Target.buildsWith_accept haccepts part).exists_ok hnames
    have hdrop := (Document.dropAt_dropped hpayload hcopy).mpr
      ⟨⟨place, part⟩, e, hl, openDocument_isEnabled hd false copy.category hl, haccepts, haccept,
        rfl, rfl⟩
    exact ⟨_, dropInto_eq_ok.mpr ⟨copy, _, hcopy, hdrop⟩⟩

/-- What was dropped is the copy that was carried, at the place of that number. -/
theorem dropInto_takes (hd : openDocument a = .ok d) {r : Bool} {after : Document}
    (hcopy : (Payload.encode component).decode = .ok copy)
    (h : dropInto (d.setReadOnly r) component i = .ok after) {place : Place .act}
    (hplace : a.places[i]? = some place) :
    ∃ old new, place.path.model? a = some old ∧ place.target.Takes copy old new ∧
      after.model = place.path.putModel new a := by
  obtain ⟨copy', drag, hcopy', hdrop⟩ := dropInto_eq_ok.mp h
  cases hcopy.symm.trans hcopy'
  have hpayload : (Drag.holding component).payload = some (.encode component) := rfl
  obtain ⟨place', old, new, hplace', hold, htakes, hafter⟩ :=
    Document.dropAt_takes hpayload hcopy hdrop
  rw [openDocument_lit_model hd r copy.category] at hplace' hold hafter
  cases hplace.symm.trans hplace'
  exact ⟨old, new, hold, htakes, hafter⟩

/-- The listing of an opened document names, under each number, the target that a drop with that
number goes to. -/
theorem openDocument_listed (hd : openDocument a = .ok d) (r : Bool) {place : Place .act}
    (hplace : a.places[i]? = some place) :
    ∃ info, (d.setReadOnly r).targets[i]? = some info ∧ info.index = i ∧
      info.category = place.target.category := by
  have hplaces : Site.act.places (d.setReadOnly r).root = a.places := by
    rw [← openDocument_model hd]
    exact (ActNode.places_model _).trans (congrArg Act.places (ActNode.model_setReadOnly _ _))
  obtain ⟨part, hl⟩ := Site.exists_target? ((congrArg (·[i]?) hplaces).trans hplace)
  refine ⟨place.target.info i part, ?_, rfl, rfl⟩
  exact (Site.act.targets_getElem? _ i).trans (congrArg (Option.map _) hl)

/-! ## Runs of the command -/

/-- All that a drop asks for: a file that loads as a script with known names, a component, a target
of that number and of the category of the component, known names in the component, and leave to
write. -/
structure Droppable (c : Config) (text : String) (target : Nat) (given : Given) (a : Act)
    (component : Component) (place : Place .act) : Prop where
  loads : Act.ofText text = .ok a
  known : ∀ name ∈ a.variables, name ∈ variableNames
  isGiven : givenComponent given = .ok component
  numbered : a.places[target]? = some place
  writable : c.readOnly = false
  category : place.target.category = component.category
  named : ∀ name ∈ component.variables, name ∈ variableNames

/-- What a drop prints and writes when it succeeds. -/
def Output.dropped (path text : String) (write : Bool) : Output :=
  if write then ⟨"✓ Updated " ++ path ++ "\n", "", [(path, text)], none⟩ else .printed text

theorem loadAct_of_read {read : ReadFile} {path text : String} (h : read path = .ok text) :
    loadAct read path = .ok a ↔ Act.ofText text = .ok a := by
  unfold loadAct
  rw [h]
  refine ⟨mapError_eq_ok, fun hact => ?_⟩
  change (Act.ofText text).mapError _ = _
  rw [hact]
  rfl

theorem Droppable.runDrop {c : Config} {read : ReadFile} {path text : String} {target : Nat}
    {given : Given} {place : Place .act} (hread : read path = .ok text)
    (h : Droppable c text target given a component place) (write : Bool) :
    ∃ copy old new, (Payload.encode component).decode = .ok copy ∧
      place.path.model? a = some old ∧ place.target.Takes copy old new ∧
      runDrop c read path target given write =
        .ok (.dropped path (c.write (place.path.putModel new a).toJson ++ "\n") write) := by
  have hact := (loadAct_of_read hread).mpr h.loads
  have hgiven := h.isGiven
  obtain ⟨d, hd⟩ := openDocument_iff.mpr h.known
  obtain ⟨hfinite, hdepth⟩ := givenComponent_bounds hgiven
  obtain ⟨copy, hcopy⟩ := Component.exists_copy hfinite hdepth
  obtain ⟨after, hafter⟩ := (dropInto_iff hd c.readOnly hcopy).mpr
    ⟨place, h.numbered, h.writable, h.category, h.named⟩
  obtain ⟨old, new, hold, htakes, hmodel⟩ := dropInto_takes hd hcopy hafter h.numbered
  refine ⟨copy, old, new, hcopy, hold, htakes, ?_⟩
  rw [← hmodel]
  simp only [SceneScript.runDrop, hact, hd, hgiven, hafter, bind, Except.bind]
  cases write <;> rfl

/-- A drop that does not fail had all it asked for. -/
theorem exists_droppable {c : Config} {read : ReadFile} {path text : String} {target : Nat}
    {given : Given} {write : Bool} {out : Output} (hread : read path = .ok text)
    (h : runDrop c read path target given write = .ok out) :
    ∃ a component place, Droppable c text target given a component place := by
  obtain ⟨a, hact, h⟩ := bind_eq_ok h
  obtain ⟨d, hd, h⟩ := bind_eq_ok h
  obtain ⟨component, hgiven, h⟩ := bind_eq_ok h
  obtain ⟨after, hafter, -⟩ := bind_eq_ok h
  obtain ⟨hfinite, hdepth⟩ := givenComponent_bounds hgiven
  obtain ⟨copy, hcopy⟩ := Component.exists_copy hfinite hdepth
  obtain ⟨place, hplace, hwritable, hcategory, hnames⟩ :=
    (dropInto_iff hd c.readOnly hcopy).mp ⟨after, hafter⟩
  exact ⟨a, component, place, (loadAct_of_read hread).mp hact, openDocument_iff.mp ⟨d, hd⟩, hgiven,
    hplace, hwritable, hcategory, hnames⟩

/-- A drop on a file that can be read succeeds exactly if it has all it asks for. Then it prints, or
writes to the file, the script with the component at the target of that number, as the component
was carried there. Otherwise it prints and writes nothing. -/
theorem runDrop_exact {read : ReadFile} {path text : String} (hread : read path = .ok text)
    (c : Config) (target : Nat) (given : Given) (write : Bool) :
    let out := Output.ofExcept (runDrop c read path target given write)
    (loadConfig read = .ok c → Command.run read (.drop path target given write) = out) ∧
    (out.failure = none ↔ ∃ a component place, Droppable c text target given a component place) ∧
    (∀ a component place, Droppable c text target given a component place →
      (∃ d info, openDocument a = .ok d ∧ (d.setReadOnly c.readOnly).targets[target]? = some info ∧
        info.index = target ∧ info.category = component.category) ∧
      ∃ copy old new, (Payload.encode component).decode = .ok copy ∧
        place.path.model? a = some old ∧ place.target.Takes copy old new ∧
        out = .dropped path (c.write (place.path.putModel new a).toJson ++ "\n") write) ∧
    (out.failure ≠ none → out.stdout = "" ∧ out.writes = []) := by
  intro out
  refine ⟨fun hc => ?_, ⟨fun hok => ?_, ?_⟩, fun a component place h => ⟨?_, ?_⟩, fun hfail => ?_⟩
  · simp only [Command.run, hc, bind, Except.bind]
    rfl
  · exact exists_droppable hread (Output.ofExcept_eq hok)
  · rintro ⟨a, component, place, h⟩
    obtain ⟨copy, old, new, -, -, -, hrun⟩ := h.runDrop hread write
    simp only [out, hrun]
    cases write <;> rfl
  · obtain ⟨d, hd⟩ := openDocument_iff.mpr h.known
    obtain ⟨info, hinfo, hindex, hcategory⟩ := openDocument_listed hd c.readOnly h.numbered
    exact ⟨d, info, hd, hinfo, hindex, hcategory.trans h.category⟩
  · obtain ⟨copy, old, new, hcopy, hold, htakes, hrun⟩ := h.runDrop hread write
    exact ⟨copy, old, new, hcopy, hold, htakes, congrArg Output.ofExcept hrun⟩
  · cases hrun : runDrop c read path target given write with
    | error f =>
      simp only [out, hrun]
      exact ⟨rfl, rfl⟩
    | ok o =>
      obtain ⟨a, component, place, h⟩ := exists_droppable hread hrun
      obtain ⟨copy, old, new, -, -, -, hdropped⟩ := h.runDrop hread write
      refine absurd ?_ hfail
      simp only [out, hdropped]
      cases write <;> rfl

theorem sampleFiles_droppable :
    Droppable .default (Config.default.write (Act.toJson ⟨[timedScene .gap]⟩) ++ "\n") 2
      (sampleSum 1) ⟨[timedScene .gap]⟩ (.expr (.nested 1)) durationPlace where
  loads := (loadAct_of_read (if_pos rfl)).mp sampleFiles_loadAct
  known := nofun
  isGiven := givenComponent_sampleSum (by omega)
  numbered := rfl
  writable := rfl
  category := rfl
  named := nofun

/-- A sum dropped on the empty duration stands there in what is written. -/
theorem sampleFiles_runDrop :
    sampleFiles "a.json" =
        .ok (Config.default.write (Act.toJson ⟨[timedScene .gap]⟩) ++ "\n") ∧
      Command.run sampleFiles (.drop "a.json" 2 (sampleSum 1) true) =
        .dropped "a.json" (Config.default.write (Act.toJson ⟨[timedScene (.nested 1)]⟩) ++ "\n")
          true := by
  have hread : sampleFiles "a.json" =
      .ok (Config.default.write (Act.toJson ⟨[timedScene .gap]⟩) ++ "\n") := if_pos rfl
  obtain ⟨hrun, -, hdropped, -⟩ := runDrop_exact hread .default 2 (sampleSum 1) true
  obtain ⟨-, copy, old, new, hcopy, -, htakes, hout⟩ := hdropped _ _ _ sampleFiles_droppable
  have hself := eq_ok_of_toOption
    ((Payload.decode_encode _).trans (Component.loaded?_nested (n := 1) (by omega)))
  cases hself.symm.trans hcopy
  have hnew : Component.expr (.nested 1) = .expr new := Target.Takes.of_slot htakes
  refine ⟨hread, (hrun rfl).trans (hout.trans ?_)⟩
  cases hnew
  rfl

end SceneScript
