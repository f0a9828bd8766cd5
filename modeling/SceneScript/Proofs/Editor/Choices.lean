import SceneScript.Proofs.Editor.Actions
import SceneScript.Proofs.Editor.InPlace

/-! Choices among options of which several may be equal. A choice keeps a bare number, and whether a
selection is a change is told by comparing numbers. Both go well because the number is always that
of the first option equal to the selected one: it is so from the start, and so it stays with every
selection, whatever the options are. -/

namespace SceneScript

variable {α : Type} [BEq α] {options : List α} {a b : α} {i : Fin options.length}

/-! ## First positions -/

theorem isSome_finIdxOf?_iff :
    (options.finIdxOf? a).isSome = true ↔ ∃ o ∈ options, (o == a) = true := by
  rw [List.finIdxOf?, List.isSome_findFinIdx?, List.any_eq_true]

theorem beq_of_finIdxOf? (h : options.finIdxOf? a = some i) : (options[i] == a) = true :=
  (List.findFinIdx?_eq_some_iff.mp h).1

/-- Equal options are found at the same position. -/
theorem finIdxOf?_congr [PartialEquivBEq α] (h : (a == b) = true) :
    options.finIdxOf? a = options.finIdxOf? b :=
  congrArg options.findFinIdx? (funext fun _ => BEq.congr_right h)

namespace Choice

variable {c c' : Choice options} {display : α → String}

/-- No option in front of the selected one is equal to it. -/
def IsFirst (c : Choice options) : Prop := options.finIdxOf? c.selected = some c.index

theorem isFirst_of_found [PartialEquivBEq α] (h : options.finIdxOf? a = some i) (readOnly : Bool) :
    IsFirst ⟨i, readOnly⟩ :=
  (finIdxOf?_congr (beq_of_finIdxOf? h)).trans h

/-- First positions are the same exactly if the options there are equal. -/
theorem IsFirst.index_eq_iff [PartialEquivBEq α] (h : c.IsFirst) (h' : c'.IsFirst) :
    c'.index = c.index ↔ (c'.selected == c.selected) = true := by
  constructor
  · intro hindex
    have hself : (c.selected == c.selected) = true := beq_of_finIdxOf? h
    rwa [show c'.selected = c.selected from congrArg (options[·]) hindex]
  · intro hequal
    exact Option.some.inj (h'.symm.trans ((finIdxOf?_congr hequal).trans h))

theorem select_readOnly (hr : c.readOnly = true) : c.select display a = .error .readOnly :=
  if_pos hr

theorem select_missing (hr : c.readOnly = false) (h : options.finIdxOf? a = none) :
    c.select display a = .error (.unknownOption (display a)) := by
  rw [select, hr, h]
  rfl

/-- An option that is there is selected, which is announced unless it is equal to the one selected
before. -/
theorem IsFirst.select_found [PartialEquivBEq α] (hc : c.IsFirst) (hr : c.readOnly = false)
    (h : options.finIdxOf? a = some i) (display : α → String) : ∃ c' : Choice options,
      c'.IsFirst ∧ (c'.selected == a) = true ∧ c'.readOnly = false ∧ c.select display a =
        .ok ⟨c', if c'.selected == c.selected then none else some .control⟩ := by
  have hfirst := isFirst_of_found h false
  refine ⟨⟨i, false⟩, hfirst, beq_of_finIdxOf? h, rfl, ?_⟩
  have hsame : i = c.index ↔ _ := hc.index_eq_iff hfirst
  simp only [select, hr, h, Bool.false_eq_true, if_false]
  by_cases hindex : i = c.index
  · rw [if_pos hindex, if_pos (hsame.mp hindex), hindex, ← hr]
  · rw [if_neg hindex, if_neg fun hequal => hindex (hsame.mpr hequal)]

theorem IsFirst.select [PartialEquivBEq α] (hc : c.IsFirst) {e : Edited (Choice options)}
    (h : c.select display a = .ok e) : e.part.IsFirst := by
  obtain ⟨i, hi, ⟨-, rfl⟩ | ⟨-, rfl⟩⟩ := select_cases h
  · exact hc
  · exact isFirst_of_found hi _

end Choice

/-! ## Bare numbers -/

/-- A choice that keeps a bare number, which nothing ties to its options. -/
structure LooseChoice (α : Type) where
  options : List α
  position : Nat
  readOnly : Bool
  /-- How many changes its owner has announced. -/
  emitted : Nat
deriving DecidableEq

namespace LooseChoice

def of? (options : List α) (initial : α) (emitted : Nat) : Option (LooseChoice α) :=
  (options.findIdx? (· == initial)).map fun position => ⟨options, position, false, emitted⟩

/-- What is selected; `none` where the number is beyond the options. -/
def selected? {α : Type} (c : LooseChoice α) : Option α := c.options[c.position]?

def setReadOnly {α : Type} (readOnly : Bool) (c : LooseChoice α) : LooseChoice α :=
  { c with readOnly }

/-- The owner announces a change. -/
def announce {α : Type} (o : Option Origin) (c : LooseChoice α) : LooseChoice α :=
  { c with emitted := countChange c.emitted o }

def select (display : α → String) (a : α) : InPlace EditorError (LooseChoice α) Unit := do
  if (← InPlace.look).readOnly then
    InPlace.fail .readOnly
  match (← InPlace.look).options.findIdx? (· == a) with
  | none => InPlace.fail (.unknownOption (display a))
  | some position =>
    if position ≠ (← InPlace.look).position then
      InPlace.assign fun c => { c with position }
      InPlace.report .control announce

/-- What is called on a choice. -/
inductive Call (α : Type)
  | select (a : α)
  | setReadOnly (readOnly : Bool)

/-- The choice after a call, whether it was refused or not. -/
def call (display : α → String) (c : LooseChoice α) : Call α → LooseChoice α
  | .select a => (select display a c).state
  | .setReadOnly readOnly => c.setReadOnly readOnly

def run (display : α → String) (c : LooseChoice α) (calls : List (Call α)) : LooseChoice α :=
  calls.foldl (call display) c

end LooseChoice

/-- The choice with its number loose. -/
def Choice.loose {α : Type} {options : List α} (emitted : Nat) (c : Choice options) :
    LooseChoice α := ⟨options, c.index, c.readOnly, emitted⟩

namespace LooseChoice

variable {display : α → String}

theorem findIdx?_eq (options : List α) (a : α) :
    options.findIdx? (· == a) = (options.finIdxOf? a).map Fin.val :=
  List.findIdx?_eq_map_findFinIdx?_val

theorem of?_eq (options : List α) (initial : α) (emitted : Nat) :
    of? options initial emitted = (Choice.of? options initial).map (Choice.loose emitted) := by
  rw [of?, findIdx?_eq, Choice.of?, Option.map_map, Option.map_map]
  rfl

theorem selected?_loose {α : Type} {options : List α} (emitted : Nat) (c : Choice options) :
    (c.loose emitted).selected? = some c.selected := List.getElem?_eq_getElem c.index.isLt

/-- Selecting by a loose number leaves what the edit leaves, announced by the owner. -/
theorem select_loose (emitted : Nat) (c : Choice options) (a : α) :
    select display a (c.loose emitted) = .of (c.loose emitted) ((c.select display a).map
      fun e => ((), ⟨e.part.loose (countChange emitted e.origin), e.origin⟩)) := by
  unfold select Choice.select
  cases hr : c.readOnly with
  | true => simp [Choice.loose, hr, Left.of, Except.map]
  | false =>
    have hfind := findIdx?_eq options a
    cases hfound : options.finIdxOf? a with
    | none =>
      rw [hfound, Option.map_none] at hfind
      simp [Choice.loose, hr, hfind, InPlace.fail, InPlace.ofResult, Left.of, Except.map]
    | some i =>
      rw [hfound, Option.map_some] at hfind
      by_cases hi : i = c.index
      · simp [Choice.loose, hr, hfind, hi, countChange, Left.of, Except.map]
      · simp [Choice.loose, hr, hfind, hi, Fin.val_inj, announce, Left.of, Except.map]

/-! ## Sequences of calls -/

/-- Whatever is called, the number is that of a first option afterwards. -/
theorem call_loose [PartialEquivBEq α] {c : Choice options} (hc : c.IsFirst)
    (display : α → String) (emitted : Nat) (x : Call α) : ∃ c' : Choice options, c'.IsFirst ∧
      ∃ emitted', (c.loose emitted).call display x = c'.loose emitted' := by
  cases x with
  | setReadOnly readOnly => exact ⟨c.setReadOnly readOnly, hc, emitted, rfl⟩
  | select a =>
    rw [call, select_loose]
    cases hselect : c.select display a with
    | error e => exact ⟨c, hc, emitted, rfl⟩
    | ok e => exact ⟨e.part, hc.select hselect, _, rfl⟩

theorem run_loose [PartialEquivBEq α] {c : Choice options} (hc : c.IsFirst)
    (display : α → String) (emitted : Nat) (calls : List (Call α)) :
    ∃ c' : Choice options, c'.IsFirst ∧
      ∃ emitted', (c.loose emitted).run display calls = c'.loose emitted' := by
  induction calls generalizing c emitted with
  | nil => exact ⟨c, hc, emitted, rfl⟩
  | cons x calls ih =>
    obtain ⟨c', hc', emitted', hcall⟩ := call_loose hc display emitted x
    rw [run, List.foldl_cons, hcall]
    exact ih hc' emitted'

theorem of?_eq_some {options : List α} {initial : α} {emitted : Nat} {c₀ : LooseChoice α}
    (h : of? options initial emitted = some c₀) :
    ∃ i, options.finIdxOf? initial = some i ∧ c₀ = Choice.loose emitted ⟨i, false⟩ := by
  rw [of?_eq, Choice.of?, Option.map_map] at h
  obtain ⟨i, hi, hc₀⟩ := Option.map_eq_some_iff.mp h
  exact ⟨i, hi, hc₀.symm⟩

/-- A choice that keeps a bare number, of whatever options and after whatever calls. Equality of
options need not be reflexive: an option that is not equal to itself is never selected.
- There is one exactly if an option is equal to what is to be selected first, and it is selected.
- The number is always inside the options, and that of the first one equal to the selected one.
- Selecting does what it does by a number that cannot leave the options. It succeeds exactly if the
  choice can be edited and there is an option equal to what is to be selected; that is selected
  then, and the owner has announced one change more unless it is equal to what was selected before.
  A selection that fails leaves everything as it was. -/
theorem selects_first [PartialEquivBEq α] (options : List α) (initial : α) (display : α → String)
    (emitted : Nat) :
    ((of? options initial emitted).isSome = true ↔ ∃ o ∈ options, (o == initial) = true) ∧
    ∀ c₀, of? options initial emitted = some c₀ →
      (∃ o, c₀.selected? = some o ∧ (o == initial) = true ∧ c₀.emitted = emitted) ∧
      ∀ calls : List (Call α),
        let c := c₀.run display calls
        ∃ d : Choice options, c = d.loose c.emitted ∧ c.selected? = some d.selected ∧
          options.findIdx? (· == d.selected) = some c.position ∧
          ∀ a,
            select display a c = .of c ((d.select display a).map
              fun e => ((), ⟨e.part.loose (countChange c.emitted e.origin), e.origin⟩)) ∧
            (c.readOnly = true → select display a c = ⟨.error .readOnly, c, []⟩) ∧
            (c.readOnly = false → (¬∃ o ∈ options, (o == a) = true) →
              select display a c = ⟨.error (.unknownOption (display a)), c, []⟩) ∧
            (c.readOnly = false → (∃ o ∈ options, (o == a) = true) →
              ∃ c' o, select display a c =
                  ⟨.ok (), c', if o == d.selected then [] else [.control]⟩ ∧
                c'.selected? = some o ∧ (o == a) = true ∧
                c'.emitted = if o == d.selected then c.emitted else c.emitted + 1) := by
  refine ⟨?_, fun c₀ hc₀ => ?_⟩
  · rw [of?_eq, Choice.of?, Option.isSome_map, Option.isSome_map, isSome_finIdxOf?_iff]
  obtain ⟨i, hi, rfl⟩ := of?_eq_some hc₀
  refine ⟨⟨_, selected?_loose emitted _, beq_of_finIdxOf? hi, rfl⟩, fun calls => ?_⟩
  obtain ⟨d, hd, n, hrun⟩ :=
    run_loose (Choice.isFirst_of_found hi false) display emitted calls
  intro c
  have hc : c = d.loose n := hrun
  clear_value c
  subst hc
  refine ⟨d, rfl, selected?_loose n d, ?_, fun a => ⟨select_loose n d a, fun hr => ?_,
    fun hr hnone => ?_, fun hr hsome => ?_⟩⟩
  · rw [findIdx?_eq, hd]
    rfl
  · rw [select_loose, Choice.select_readOnly hr]
    rfl
  · have hmissing : options.finIdxOf? a = none :=
      Option.not_isSome_iff_eq_none.mp fun h => hnone (isSome_finIdxOf?_iff.mp h)
    rw [select_loose, Choice.select_missing hr hmissing]
    rfl
  · obtain ⟨j, hj⟩ := Option.isSome_iff_exists.mp (isSome_finIdxOf?_iff.mpr hsome)
    obtain ⟨d', -, hequal, -, hselect⟩ := hd.select_found hr hj display
    let emitted' := if d'.selected == d.selected then n else n + 1
    refine ⟨d'.loose emitted', d'.selected, ?_, selected?_loose _ d', hequal, rfl⟩
    rw [select_loose, hselect]
    dsimp only [emitted']
    cases d'.selected == d.selected <;> rfl

def sampleOptions : List String := ["a", "b", "a"]

/-- Of the two equal options the first is selected, and selecting it again is no change. -/
theorem sampleOptions_selected :
    of? sampleOptions "a" 0 = some ⟨sampleOptions, 0, false, 0⟩ ∧
      (∃ o ∈ sampleOptions, (o == "a") = true) ∧
      ∃ c, run id ⟨sampleOptions, 0, false, 0⟩ [.select "b", .select "a"] = c ∧
        c.position = 0 ∧ c.emitted = 2 ∧ c.readOnly = false ∧
        ∃ c', select id "a" c = ⟨.ok (), c', []⟩ ∧ c'.selected? = some "a" ∧ c'.emitted = 2 := by
  have hnew : of? sampleOptions "a" 0 = some ⟨sampleOptions, 0, false, 0⟩ := by decide
  have hthere : ∃ o ∈ sampleOptions, (o == "a") = true := by decide
  have hrun : run id ⟨sampleOptions, 0, false, 0⟩ [.select "b", .select "a"] =
      ⟨sampleOptions, 0, false, 2⟩ := by decide
  obtain ⟨-, hlaw⟩ := selects_first sampleOptions "a" id 0
  obtain ⟨-, hcalls⟩ := hlaw _ hnew
  obtain ⟨d, -, hselected, -, hselect⟩ := hcalls [.select "b", .select "a"]
  rw [hrun] at hselected hselect
  obtain ⟨c', o, htaken, ho, hequal, hemitted⟩ := (hselect "a").2.2.2 rfl hthere
  cases eq_of_beq hequal
  have hd : "a" = d.selected := Option.some.inj hselected
  rw [← hd, hequal, if_pos rfl] at htaken hemitted
  exact ⟨hnew, hthere, _, hrun, rfl, rfl, rfl, c', htaken, ho, hemitted⟩

end LooseChoice

end SceneScript
