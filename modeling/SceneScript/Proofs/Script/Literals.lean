import SceneScript.Proofs.Json.Reading
import SceneScript.Script.Category

/-! The numbers of a script, and what becomes of them on paper. A number is written in decimal and
rounded again where it is read; one that is not finite is written as nothing at all. A script
rereads as the same script exactly if each of its numbers does. -/

namespace SceneScript

/-- What a number reads as after it was written in a document. -/
def Binary64.reread? (x : Binary64) : Option Binary64 :=
  match (Numeral.real x).readBack? with
  | some (.number n) => some n.toBinary64
  | _ => none

theorem Binary64.reread?_infinite {x : Binary64} (h : x.isFinite = false) : x.reread? = none := by
  have hread : (Json.ofText "null").toOption = some .null := Json.ofText_compact .null
  simp [reread?, Numeral.readBack?, Numeral.text, h, hread]

/-! ## The numbers in order -/

def Expr.literals : {f : Family} → Expr f → List Binary64
  | _, .gap | _, .text _ | _, .url _ => []
  | _, .number x => [x]
  | _, .operation _ a b => a.literals ++ b.literals
  | _, .titleOf v | _, .relatedTo v => v.literals
  | _, .randomFrom c => c.literals

def Statement.literals : Statement → List Binary64
  | .get _ => []
  | .set _ value => value.literals

def CommandSequence.literals (s : CommandSequence) : List Binary64 :=
  s.commands.flatMap Statement.literals

def Scene.literals : Scene → List Binary64
  | .text s =>
    s.duration.literals ++ s.preCommands.literals ++ s.postCommands.literals ++ s.text.literals
  | .video s =>
    s.duration.literals ++ s.preCommands.literals ++ s.postCommands.literals ++ s.offset.literals
      ++ s.source.literals

def Act.literals (a : Act) : List Binary64 := a.scenes.flatMap Scene.literals

def Component.literals : Component → List Binary64
  | .expr e => e.literals
  | .statement s => s.literals
  | .scene s => s.literals
  | .sequence s => s.literals
  | .act a => a.literals

/-! ## Scripts with each number reread -/

def Expr.reread? : {f : Family} → Expr f → Option (Expr f)
  | _, .gap => some .gap
  | _, .number x => do some (.number (← x.reread?))
  | _, .operation o a b => do some (.operation o (← a.reread?) (← b.reread?))
  | _, .text s => some (.text s)
  | _, .titleOf v => do some (.titleOf (← v.reread?))
  | _, .url s => some (.url s)
  | _, .randomFrom c => do some (.randomFrom (← c.reread?))
  | _, .relatedTo v => do some (.relatedTo (← v.reread?))

def Statement.reread? : Statement → Option Statement
  | .get name => some (.get name)
  | .set name value => do some (.set name (← value.reread?))

def CommandSequence.reread? (s : CommandSequence) : Option CommandSequence := do
  some ⟨← s.commands.mapM Statement.reread?⟩

def Scene.reread? : Scene → Option Scene
  | .text s => do
    some (.text ⟨s.title, s.comment, ← s.duration.reread?, ← s.preCommands.reread?,
      ← s.postCommands.reread?, ← s.text.reread?⟩)
  | .video s => do
    some (.video ⟨s.title, s.comment, ← s.duration.reread?, ← s.preCommands.reread?,
      ← s.postCommands.reread?, ← s.offset.reread?, ← s.source.reread?⟩)

def Act.reread? (a : Act) : Option Act := do some ⟨← a.scenes.mapM Scene.reread?⟩

def Component.reread? : Component → Option Component
  | .expr e => do some (.expr (← e.reread?))
  | .statement s => do some (.statement (← s.reread?))
  | .scene s => do some (.scene (← s.reread?))
  | .sequence s => do some (.sequence (← s.reread?))
  | .act a => do some (.act (← a.reread?))

/-! ## A number is reread wherever it stands -/

theorem Expr.reread?_literals {f : Family} (e : Expr f) : ∀ e', e.reread? = some e' →
    e.literals.map Binary64.reread? = e'.literals.map some := by
  induction e with
  | gap | text _ | url _ => intro e' h; cases h; rfl
  | number x =>
    intro e' h
    obtain ⟨y, hy, h⟩ := Option.bind_eq_some_iff.mp h
    cases h
    simp [literals, hy]
  | operation o a b iha ihb =>
    intro e' h
    obtain ⟨a', ha, h⟩ := Option.bind_eq_some_iff.mp h
    obtain ⟨b', hb, h⟩ := Option.bind_eq_some_iff.mp h
    cases h
    simp [literals, iha a' ha, ihb b' hb]
  | titleOf v ih | relatedTo v ih =>
    intro e' h
    obtain ⟨v', hv, h⟩ := Option.bind_eq_some_iff.mp h
    cases h
    exact ih v' hv
  | randomFrom c ih =>
    intro e' h
    obtain ⟨c', hc, h⟩ := Option.bind_eq_some_iff.mp h
    cases h
    exact ih c' hc

theorem mapM_literals {α : Type} {reread? : α → Option α} {literals : α → List Binary64}
    (ih : ∀ a a', reread? a = some a' →
      (literals a).map Binary64.reread? = (literals a').map some) :
    ∀ (as as' : List α), as.mapM reread? = some as' →
      (as.flatMap literals).map Binary64.reread? = (as'.flatMap literals).map some
  | [], as', h => by cases h; rfl
  | a :: as, as', h => by
    rw [List.mapM_cons] at h
    obtain ⟨a', ha, h⟩ := Option.bind_eq_some_iff.mp h
    obtain ⟨as'', has, h⟩ := Option.bind_eq_some_iff.mp h
    cases h
    simp [ih a a' ha, mapM_literals ih as as'' has]

theorem Statement.reread?_literals : ∀ s s' : Statement, s.reread? = some s' →
    s.literals.map Binary64.reread? = s'.literals.map some
  | .get name, s', h => by cases h; rfl
  | .set name value, s', h => by
    obtain ⟨value', hvalue, h⟩ := Option.bind_eq_some_iff.mp h
    cases h
    exact value.reread?_literals value' hvalue

theorem CommandSequence.reread?_literals (s s' : CommandSequence) (h : s.reread? = some s') :
    s.literals.map Binary64.reread? = s'.literals.map some := by
  obtain ⟨commands, hcommands, h⟩ := Option.bind_eq_some_iff.mp h
  cases h
  exact mapM_literals Statement.reread?_literals s.commands commands hcommands

theorem Scene.reread?_literals : ∀ s s' : Scene, s.reread? = some s' →
    s.literals.map Binary64.reread? = s'.literals.map some
  | .text s, s', h => by
    obtain ⟨duration, hduration, h⟩ := Option.bind_eq_some_iff.mp h
    obtain ⟨pre, hpre, h⟩ := Option.bind_eq_some_iff.mp h
    obtain ⟨post, hpost, h⟩ := Option.bind_eq_some_iff.mp h
    obtain ⟨text, htext, h⟩ := Option.bind_eq_some_iff.mp h
    cases h
    simp [literals, s.duration.reread?_literals duration hduration,
      s.preCommands.reread?_literals pre hpre, s.postCommands.reread?_literals post hpost,
      s.text.reread?_literals text htext]
  | .video s, s', h => by
    obtain ⟨duration, hduration, h⟩ := Option.bind_eq_some_iff.mp h
    obtain ⟨pre, hpre, h⟩ := Option.bind_eq_some_iff.mp h
    obtain ⟨post, hpost, h⟩ := Option.bind_eq_some_iff.mp h
    obtain ⟨offset, hoffset, h⟩ := Option.bind_eq_some_iff.mp h
    obtain ⟨source, hsource, h⟩ := Option.bind_eq_some_iff.mp h
    cases h
    simp [literals, s.duration.reread?_literals duration hduration,
      s.preCommands.reread?_literals pre hpre, s.postCommands.reread?_literals post hpost,
      s.offset.reread?_literals offset hoffset, s.source.reread?_literals source hsource]

theorem Act.reread?_literals (a a' : Act) (h : a.reread? = some a') :
    a.literals.map Binary64.reread? = a'.literals.map some := by
  obtain ⟨scenes, hscenes, h⟩ := Option.bind_eq_some_iff.mp h
  cases h
  exact mapM_literals Scene.reread?_literals a.scenes scenes hscenes

theorem Component.reread?_literals : ∀ c c' : Component, c.reread? = some c' →
    c.literals.map Binary64.reread? = c'.literals.map some
  | .expr e, c', h => by
    obtain ⟨e', he, h⟩ := Option.bind_eq_some_iff.mp h
    cases h
    exact e.reread?_literals e' he
  | .statement s, c', h => by
    obtain ⟨s', hs, h⟩ := Option.bind_eq_some_iff.mp h
    cases h
    exact s.reread?_literals s' hs
  | .scene s, c', h => by
    obtain ⟨s', hs, h⟩ := Option.bind_eq_some_iff.mp h
    cases h
    exact s.reread?_literals s' hs
  | .sequence s, c', h => by
    obtain ⟨s', hs, h⟩ := Option.bind_eq_some_iff.mp h
    cases h
    exact s.reread?_literals s' hs
  | .act a, c', h => by
    obtain ⟨a', ha, h⟩ := Option.bind_eq_some_iff.mp h
    cases h
    exact a.reread?_literals a' ha

/-! ## Scripts of numbers that reread as themselves -/

theorem Expr.reread?_self {f : Family} (e : Expr f) (h : ∀ x ∈ e.literals, x.reread? = some x) :
    e.reread? = some e := by
  induction e with
  | gap | text _ | url _ => rfl
  | number x => simp [reread?, h x (by simp [literals])]
  | operation o a b iha ihb =>
    simp [reread?, iha fun x hx => h x (by simp [literals, hx]),
      ihb fun x hx => h x (by simp [literals, hx])]
  | titleOf v ih | relatedTo v ih => simp [reread?, ih h]
  | randomFrom c ih => simp [reread?, ih h]

theorem mapM_self {α : Type} {reread? : α → Option α} :
    ∀ as : List α, (∀ a ∈ as, reread? a = some a) → as.mapM reread? = some as
  | [], _ => rfl
  | a :: as, h => by
    simp [List.mapM_cons, h a (by simp), mapM_self as fun a ha => h a (by simp [ha])]

theorem Statement.reread?_self : ∀ s : Statement, (∀ x ∈ s.literals, x.reread? = some x) →
    s.reread? = some s
  | .get name, _ => rfl
  | .set name value, h => by simp [reread?, value.reread?_self h]

theorem CommandSequence.reread?_self (s : CommandSequence)
    (h : ∀ x ∈ s.literals, x.reread? = some x) : s.reread? = some s := by
  have hcommands := mapM_self s.commands fun t ht =>
    t.reread?_self fun x hx => h x (List.mem_flatMap.mpr ⟨t, ht, hx⟩)
  simp [reread?, hcommands]

theorem Scene.reread?_self : ∀ s : Scene, (∀ x ∈ s.literals, x.reread? = some x) →
    s.reread? = some s
  | .text s, h => by
    simp only [literals, List.mem_append] at h
    simp [reread?, s.duration.reread?_self fun x hx => h x (by simp [hx]),
      s.preCommands.reread?_self fun x hx => h x (by simp [hx]),
      s.postCommands.reread?_self fun x hx => h x (by simp [hx]),
      s.text.reread?_self fun x hx => h x (by simp [hx])]
  | .video s, h => by
    simp only [literals, List.mem_append] at h
    simp [reread?, s.duration.reread?_self fun x hx => h x (by simp [hx]),
      s.preCommands.reread?_self fun x hx => h x (by simp [hx]),
      s.postCommands.reread?_self fun x hx => h x (by simp [hx]),
      s.offset.reread?_self fun x hx => h x (by simp [hx]),
      s.source.reread?_self fun x hx => h x (by simp [hx])]

theorem Act.reread?_self (a : Act) (h : ∀ x ∈ a.literals, x.reread? = some x) :
    a.reread? = some a := by
  have hscenes := mapM_self a.scenes fun s hs =>
    s.reread?_self fun x hx => h x (List.mem_flatMap.mpr ⟨s, hs, hx⟩)
  simp [reread?, hscenes]

theorem Component.reread?_self : ∀ c : Component, (∀ x ∈ c.literals, x.reread? = some x) →
    c.reread? = some c
  | .expr e, h => by simp [reread?, e.reread?_self h]
  | .statement s, h => by simp [reread?, s.reread?_self h]
  | .scene s, h => by simp [reread?, s.reread?_self h]
  | .sequence s, h => by simp [reread?, s.reread?_self h]
  | .act a, h => by simp [reread?, a.reread?_self h]

/-! ## What a script rereads as -/

theorem Component.reread?_eq_self (c : Component) :
    c.reread? = some c ↔ ∀ x ∈ c.literals, x.reread? = some x :=
  ⟨fun h => List.map_inj_left.mp (c.reread?_literals c h), c.reread?_self⟩

/-- A finite number that rereads as its neighbour: its digits are scaled by a power of ten that is
rounded itself. -/
example : (⟨false, 4498206766956784991, by decide⟩ : Binary64).reread? =
    some ⟨false, 4498206766956784992, by decide⟩ := by
  decide +kernel

theorem Component.reread?_none {c : Component} {x : Binary64} (hx : x ∈ c.literals)
    (h : x.reread? = none) : c.reread? = none := by
  cases hc : c.reread? with
  | none => rfl
  | some c' =>
    have hmem := List.mem_map_of_mem (f := Binary64.reread?) hx
    rw [c.reread?_literals c' hc, h] at hmem
    simp at hmem

end SceneScript
