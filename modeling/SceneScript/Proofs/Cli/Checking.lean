import Mathlib.Algebra.GroupWithZero.Nat
import SceneScript.Proofs.Cli.Rewriting
import SceneScript.Proofs.Editor.Building
import SceneScript.Proofs.Editor.Listing
import SceneScript.Proofs.Script.Numerals

/-! What a check says of a file, told without an editor: whether its text is an act, whether the
names in it are known, and how many gaps, fillings and list ends it has. The tree that the check
builds adds nothing to this. It is always derived back to the script that was read, and that script
equals itself, since no number in it is other than finite. -/

namespace SceneScript

/-! ## Counting targets -/

/-- The slots of an expression: its own, and those of its parts. -/
def Expr.targetCount : {f : Family} → Expr f → Nat
  | _, .gap | _, .number _ | _, .text _ | _, .url _ => 1
  | _, .operation _ a b => a.targetCount + b.targetCount + 1
  | _, .titleOf v | _, .relatedTo v => v.targetCount + 1
  | _, .randomFrom c => c.targetCount + 1

def Statement.targetCount : Statement → Nat
  | .get _ => 0
  | .set _ value => value.targetCount

/-- The targets of the commands, and the end of the list. -/
def CommandSequence.targetCount (s : CommandSequence) : Nat :=
  (s.commands.map Statement.targetCount).sum + 1

def Scene.targetCount : Scene → Nat
  | .text s =>
    s.preCommands.targetCount + s.text.targetCount + s.duration.targetCount
      + s.postCommands.targetCount
  | .video s =>
    s.preCommands.targetCount + s.source.targetCount + s.duration.targetCount
      + s.offset.targetCount + s.postCommands.targetCount

/-- The targets of the scenes, and the end of the list. -/
def Act.targetCount (a : Act) : Nat := (a.scenes.map Scene.targetCount).sum + 1

theorem Expr.length_places {f : Family} (e : Expr f) : e.places.length = e.targetCount := by
  have hslot : ∀ {f : Family} (e : Expr f), e.places.length = e.innerPlaces.length + 1 := by
    intro f e
    simp only [places, slotPlaces, List.length_cons, List.length_map]
  induction e with
  | operation o a b iha ihb =>
    rw [hslot, innerPlaces, List.length_append, List.length_map, List.length_map]
    exact congrArg (· + 1) (congrArg₂ (· + ·) iha ihb)
  | titleOf v ih | relatedTo v ih =>
    rw [hslot, innerPlaces, List.length_map]
    exact congrArg (· + 1) ih
  | randomFrom c ih =>
    rw [hslot, innerPlaces, List.length_map]
    exact congrArg (· + 1) ih
  | gap | number x | text s | url s => rfl

theorem length_entryPlaces {α : Type} {a b : Site} {step : Nat → Step a b}
    {places : α → List (Place b)} {count : α → Nat} (h : ∀ x, (places x).length = count x) :
    ∀ (i : Nat) (xs : List α), (entryPlaces step places i xs).length = (xs.map count).sum
  | _, [] => rfl
  | i, x :: xs => by
    rw [entryPlaces, List.length_append, List.length_map, h, length_entryPlaces h (i + 1) xs]
    rfl

theorem Statement.length_places (s : Statement) : s.places.length = s.targetCount := by
  cases s with
  | get name => rfl
  | set name value => rw [places, List.length_map, value.length_places, targetCount]

theorem CommandSequence.length_places (s : CommandSequence) :
    s.places.length = s.targetCount := by
  rw [places, List.length_map, Statement.listPlaces, List.length_append,
    length_entryPlaces Statement.length_places]
  rfl

theorem Scene.length_places (s : Scene) : s.places.length = s.targetCount := by
  cases s <;> simp only [places, targetCount, List.length_append, List.length_map,
    CommandSequence.length_places, Expr.length_places]

/-- The layout of an act has a place for each of its targets. -/
theorem Act.length_places (a : Act) : a.places.length = a.targetCount := by
  rw [places, List.length_map, Scene.listPlaces, List.length_append,
    length_entryPlaces Scene.length_places]
  rfl

/-! ## Verdicts -/

/-- What a check says of a file. -/
inductive Verdict
  | passed (targets : Nat)
  | refused (message : String)
deriving DecidableEq

namespace Verdict

/-- The names of a script are looked at in the order they are met. -/
def ofAct (a : Act) : Verdict :=
  match a.variables.find? (· ∉ variableNames) with
  | some name => refused (EditorError.unknownVariable name).message
  | none => passed a.targetCount

def of (read : ReadFile) (path : String) : Verdict :=
  match read path with
  | .error _ => refused ("Cannot read " ++ path)
  | .ok text =>
    match Act.ofText text with
    | .error _ => refused (path ++ " is not an act document")
    | .ok a => ofAct a

def isRefused : Verdict → Bool
  | passed _ => false
  | refused _ => true

/-- The line on a file. -/
def line (path : String) : Verdict → String
  | passed n => "  ✓ " ++ path ++ " (" ++ toString n ++ " drop targets)\n"
  | refused message => "  ✗ " ++ path ++ " - " ++ message ++ "\n"

variable {read : ReadFile} {path : String}

theorem ofAct_eq_passed {a : Act} {n : Nat} :
    ofAct a = passed n ↔ (∀ name ∈ a.variables, name ∈ variableNames) ∧ n = a.targetCount := by
  unfold ofAct
  cases hfind : a.variables.find? (· ∉ variableNames) with
  | some name =>
    have hunknown := List.find?_some hfind
    have hmem := List.mem_of_find?_eq_some hfind
    refine ⟨nofun, fun h => ?_⟩
    exact absurd (h.1 name hmem) (of_decide_eq_true hunknown)
  | none =>
    have hknown : ∀ name ∈ a.variables, name ∈ variableNames := by
      simpa using List.find?_eq_none.mp hfind
    constructor
    · rintro ⟨⟩
      exact ⟨hknown, rfl⟩
    · rintro ⟨-, rfl⟩
      rfl

/-- A file passes if its text is an act and the names in it are known, and for no other reason. -/
theorem of_eq_passed {n : Nat} :
    of read path = passed n ↔ ∃ text a, read path = .ok text ∧ Act.ofText text = .ok a ∧
      (∀ name ∈ a.variables, name ∈ variableNames) ∧ n = a.targetCount := by
  unfold of
  cases hread : read path with
  | error e => exact ⟨nofun, nofun⟩
  | ok text =>
    dsimp only
    cases hload : Act.ofText text with
    | error e =>
      refine ⟨nofun, ?_⟩
      rintro ⟨_, a, ⟨⟩, ha, -⟩
      cases hload.symm.trans ha
    | ok a =>
      refine ofAct_eq_passed.trans ⟨fun h => ⟨text, a, rfl, hload, h⟩, ?_⟩
      rintro ⟨_, a', ⟨⟩, ha, h⟩
      cases hload.symm.trans ha
      exact h

end Verdict

/-! ## The check of one file -/

/-- Whatever was read and could be built is derived back, and equals what was read. -/
theorem Document.agrees_loaded {text : String} {a : Act} {d : Document}
    (ha : Act.ofText text = .ok a) (hd : openDocument a = .ok d) : d.model.agrees a = true := by
  rw [openDocument_model hd]
  exact a.agrees_self (Act.loaded_finite ha)

theorem openDocument_buildsWith (a : Act) :
    match a.variables.find? (· ∉ variableNames) with
    | none => ∃ d, openDocument a = .ok d
    | some name => openDocument a = .error (.plain (EditorError.unknownVariable name).message) := by
  have hbuild := ActNode.buildsWith a
  unfold BuildsWith at hbuild
  unfold openDocument Document.ofAct
  cases hfind : a.variables.find? (· ∉ variableNames) with
  | none =>
    rw [hfind] at hbuild
    obtain ⟨root, hroot⟩ := hbuild
    rw [hroot]
    exact ⟨_, rfl⟩
  | some name =>
    rw [hfind] at hbuild
    dsimp only at hbuild ⊢
    rw [hbuild]
    rfl

theorem Document.length_targets_opened {a : Act} {d : Document} (hd : openDocument a = .ok d) :
    d.targets.length = a.targetCount := by
  rw [targets, Site.length_targets, ← a.length_places, ← openDocument_model hd]
  exact congrArg List.length d.root.places_model

/-- The check of a file comes to its verdict. -/
theorem checkFile_eq (read : ReadFile) (path : String) :
    match Verdict.of read path with
    | .passed n => checkFile read path = .ok n
    | .refused message => ∃ causes, checkFile read path = .error ⟨message, causes⟩ := by
  unfold Verdict.of checkFile loadAct
  cases read path with
  | error e => exact ⟨_, rfl⟩
  | ok text =>
    simp only [mapError_ok, bind_ok]
    cases hload : Act.ofText text with
    | error e => exact ⟨_, rfl⟩
    | ok a =>
      have hopen := openDocument_buildsWith a
      simp only [mapError_ok, bind_ok, Verdict.ofAct]
      cases hfind : a.variables.find? (· ∉ variableNames) with
      | some name =>
        rw [hfind] at hopen
        dsimp only at hopen ⊢
        rw [hopen]
        exact ⟨_, rfl⟩
      | none =>
        rw [hfind] at hopen
        obtain ⟨d, hd⟩ := hopen
        dsimp only
        rw [hd, bind_ok, if_pos (Document.agrees_loaded hload hd),
          Document.length_targets_opened hd]

/-- The report on a file is one line, on the side of its verdict. -/
theorem reportFile_eq (read : ReadFile) (path : String) :
    reportFile read path =
      let v := Verdict.of read path
      (if !v.isRefused then v.line path else "", if v.isRefused then v.line path else "",
        v.isRefused) := by
  have hcheck := checkFile_eq read path
  unfold reportFile
  cases hv : Verdict.of read path with
  | passed n =>
    rw [hv] at hcheck
    dsimp only at hcheck
    rw [hcheck]
    rfl
  | refused message =>
    rw [hv] at hcheck
    obtain ⟨causes, hcheck⟩ := hcheck
    rw [hcheck]
    rfl

/-! ## The check of many files -/

theorem join_filter {α : Type} (p : α → Bool) (f : α → String) (xs : List α) :
    String.join (xs.map fun x => if p x then f x else "") = String.join ((xs.filter p).map f) := by
  induction xs with
  | nil => rfl
  | cons x xs ih =>
    cases hx : p x with
    | true =>
      rw [List.filter_cons_of_pos hx, List.map_cons, List.map_cons, String.join_cons,
        String.join_cons, ih, if_pos hx]
    | false =>
      rw [List.filter_cons_of_neg (Bool.eq_false_iff.mp hx), List.map_cons, String.join_cons, ih,
        hx, if_neg Bool.false_ne_true, String.empty_append]

/-- A check tells of each file whether it passes, in the order the files are given in. It fails if
one of them does, and counts those that do. -/
theorem runCheck_exact (read : ReadFile) (paths : List String) :
    let passed := paths.filter fun path => !(Verdict.of read path).isRefused
    let refused := paths.filter fun path => (Verdict.of read path).isRefused
    let lines := fun paths : List String =>
      String.join (paths.map fun path => (Verdict.of read path).line path)
    (∀ path n, Verdict.of read path = .passed n ↔
      ∃ text a, read path = .ok text ∧ Act.ofText text = .ok a ∧
        (∀ name ∈ a.variables, name ∈ variableNames) ∧ n = a.targetCount) ∧
    (∀ path a d, loadAct read path = .ok a → openDocument a = .ok d →
      d.model.agrees a = true) ∧
    (runCheck read paths).stdout = lines passed ++ "\n" ++
      (if refused = [] then "✅ Checked " ++ toString paths.length ++ " documents\n" else "") ∧
    (runCheck read paths).stderr = lines refused ∧
    (runCheck read paths).writes = [] ∧
    (runCheck read paths).failure =
      (if refused = [] then none else some (.plain
        (toString refused.length ++ " of " ++ toString paths.length ++ " documents failed"))) ∧
    ∀ c, loadConfig read = .ok c → Command.run read (.check paths) = runCheck read paths := by
  intro passed refused lines
  have hcount : (paths.map (reportFile read)).countP (·.2.2) = refused.length := by
    rw [List.countP_map, List.countP_eq_length_filter]
    simp only [Function.comp_def, reportFile_eq]
    rfl
  have hpassed : String.join ((paths.map (reportFile read)).map (·.1)) = lines passed := by
    rw [List.map_map]
    simp only [Function.comp_def, reportFile_eq]
    exact join_filter _ _ paths
  have hrefused : String.join ((paths.map (reportFile read)).map (·.2.1)) = lines refused := by
    rw [List.map_map]
    simp only [Function.comp_def, reportFile_eq]
    exact join_filter _ _ paths
  refine ⟨fun path n => Verdict.of_eq_passed, fun path a d ha hd => ?_, ?_⟩
  · obtain ⟨text, -, ha⟩ := bind_eq_ok ha
    exact Document.agrees_loaded (mapError_eq_ok ha) hd
  have hrun : ∀ c, loadConfig read = .ok c →
      Command.run read (.check paths) = runCheck read paths := by
    intro c hc
    rw [Command.run, hc]
    rfl
  unfold runCheck at hrun ⊢
  dsimp only at hrun ⊢
  rw [hcount, hpassed, hrefused] at hrun ⊢
  by_cases hnone : refused = []
  · rw [if_pos (List.length_eq_zero_iff.mpr hnone)] at hrun ⊢
    rw [if_pos hnone, if_pos hnone]
    exact ⟨by simp only [String.append_assoc], rfl, rfl, rfl, hrun⟩
  · rw [if_neg (mt List.length_eq_zero_iff.mp hnone)] at hrun ⊢
    rw [if_neg hnone, if_neg hnone]
    exact ⟨String.append_empty.symm, rfl, rfl, rfl, hrun⟩

/-- Two files: an act of one scene, and a text that is no act. -/
def sampleChecked : ReadFile := fun path =>
  if path = "b.json" then .ok "7" else sampleFiles path

theorem sampleChecked_run :
    loadConfig sampleChecked = .ok .default ∧
      Command.run sampleChecked (.check ["b.json", "a.json"]) =
        ⟨"  ✓ a.json (5 drop targets)\n\n", "  ✗ b.json - b.json is not an act document\n", [],
          some (.plain "1 of 2 documents failed")⟩ := by
  have hact : Verdict.of sampleChecked "a.json" = .passed 5 := by
    obtain ⟨text, hread, htext⟩ := bind_eq_ok sampleFiles_loadAct
    exact Verdict.of_eq_passed.mpr
      ⟨text, _, mapError_eq_ok hread, mapError_eq_ok htext, nofun, rfl⟩
  have hother : Verdict.of sampleChecked "b.json" =
      .refused ("b.json" ++ " is not an act document") := by
    have hnone : (Act.ofText "7").toOption = none := by decide +kernel
    obtain ⟨e, he⟩ := eq_error_of_toOption hnone
    change (match Act.ofText "7" with
      | .error _ => Verdict.refused ("b.json" ++ " is not an act document")
      | .ok a => Verdict.ofAct a) = _
    rw [he]
  have hpassed : ["b.json", "a.json"].filter
      (fun path => !(Verdict.of sampleChecked path).isRefused) = ["a.json"] := by
    rw [List.filter_cons_of_neg (by rw [hother]; nofun),
      List.filter_cons_of_pos (by rw [hact]; rfl), List.filter_nil]
  have hrefused : ["b.json", "a.json"].filter
      (fun path => (Verdict.of sampleChecked path).isRefused) = ["b.json"] := by
    rw [List.filter_cons_of_pos (by rw [hother]; rfl),
      List.filter_cons_of_neg (by rw [hact]; nofun), List.filter_nil]
  obtain ⟨-, -, hout, herr, hwrites, hfailure, hrun⟩ :=
    runCheck_exact sampleChecked ["b.json", "a.json"]
  rw [hpassed, hrefused] at hout
  rw [hrefused] at herr hfailure
  dsimp only at hout herr
  rw [List.map_singleton, hact] at hout
  rw [List.map_singleton, hother] at herr
  refine ⟨rfl, (hrun .default rfl).trans ?_⟩
  generalize runCheck sampleChecked ["b.json", "a.json"] = output at hout herr hwrites hfailure
  obtain ⟨stdout, stderr, writes, failure⟩ := output
  cases hout
  cases herr
  cases hwrites
  cases hfailure
  rfl

end SceneScript
