import SceneScript.Proofs.Editor.Dragging
import SceneScript.Proofs.Editor.Extent
import SceneScript.Proofs.Editor.Growing
import SceneScript.Proofs.Editor.LocalEdits
import SceneScript.Proofs.Editor.Revisions
import SceneScript.Proofs.Script.Numerals
import SceneScript.Proofs.Script.Rereading

/-! Where the numbers of an edited script come from. A loaded script has finite numbers only, and so
has whatever arrives by a drag, since it is read on the way; what is typed is taken only if it is
finite. So no number of a script that was loaded is ever missing from its text, and the script
equals itself, however it is worked on. -/

namespace SceneScript

variable {b : Site} {d : Document}

/-! ## What comes in -/

theorem parseNumber_finite {text : String} {x : Binary64} (h : parseNumber text = .ok x) :
    x.isFinite = true := by
  unfold parseNumber at h
  split at h
  · split at h
    · cases h
      assumption
    · cases h
  · cases h

theorem Palette.entries_bounds : ∀ e ∈ entries,
    (∀ x ∈ e.component.literals, x.isFinite = true) ∧ e.component.toJson.depth ≤ Json.maxDepth := by
  decide +kernel

/-- What is read from a payload has finite numbers, wherever it comes from. -/
theorem Payload.finite_decode {p : Payload} {c : Component} (h : p.decode = .ok c) :
    ∀ x ∈ c.literals, x.isFinite = true := by
  unfold decode at h
  split at h
  · exact (Component.loaded_bounds (mapError_eq_ok h)).1
  · cases h

theorem Drag.finite_carried {drag : Drag} {c : Component} (h : drag.carried? = some c) :
    ∀ x ∈ c.literals, x.isFinite = true := by
  obtain ⟨p, -, hdecode⟩ := Option.bind_eq_some_iff.mp h
  exact Payload.finite_decode (eq_ok_of_toOption hdecode)

/-- The components an action hands over. -/
def Action.handed : Action → List Component
  | fill c | fillComponent c | append c | appendComponent c => [c]
  | _ => []

/-- Every number after an action is finite, or was there before, or came with a component. -/
theorem Action.Edits.mem_literals {x : Action} {old new : b.Model} (h : x.Edits b old new)
    {y : Binary64} (hy : y ∈ b.literals new) :
    y.isFinite = true ∨ y ∈ b.literals old ∨ ∃ c ∈ x.handed, y ∈ c.literals := by
  have hgrown : ∀ {α : Type} {f : α → List Binary64} {as : List α} {a : α},
      y ∈ (as ++ [a]).flatMap f → y ∈ as.flatMap f ∨ y ∈ f a := by
    intro α f as a hy
    simpa using hy
  cases h with
  | fill old e | fillComponent old e => exact .inr (.inr ⟨_, List.mem_singleton_self _, hy⟩)
  | clear => cases hy
  | appendStatement ss s | appendScene ss s | appendStatementComponent ss s
  | appendSceneComponent ss s | addCommand ss s | addScene ss s =>
    rcases hgrown hy with hy | hy
    · exact .inr (.inl hy)
    · exact .inr (.inr ⟨_, List.mem_singleton_self _, hy⟩)
  | setNumber text old x h =>
    cases List.mem_singleton.mp hy
    exact .inl (parseNumber_finite h)
  | setText | setUrl => cases hy
  | setOperator | selectGot | selectSet => exact .inr (.inl hy)
  | setTitle title s | setComment comment s => cases s <;> exact .inr (.inl hy)

/-! ## Documents with finite numbers -/

/-- Every number of the script is finite, and every text of a number is one of it. -/
structure Document.Sound (d : Document) : Prop where
  faithful : Site.Faithful .act d.root
  finite : ∀ x ∈ d.model.literals, x.isFinite = true

/-- The components that something done to a document hands over. -/
def Deed.handed : Deed → List Component
  | operate (.accept _ c) => [c]
  | operate (.edit _ x) => x.handed
  | _ => []

namespace Document.Sound

variable (h : d.Sound)

include h

theorem of_model {d' : Document} (hfaithful : Site.Faithful .act d'.root)
    (hmodel : d'.model = d.model) : d'.Sound := ⟨hfaithful, hmodel ▸ h.finite⟩

theorem highlight (wanted : Category → Bool) :
    Document.Sound { d with root := d.root.highlight wanted } :=
  h.of_model (h.faithful.highlight wanted) (ActNode.model_highlight wanted d.root)

theorem settle (drag : Drag) : (d.settle drag).Sound := by
  unfold Document.settle
  cases drag.isDragging with
  | true => exact h
  | false => exact h.highlight _

theorem put {path : Path .act b} {q : b.Part} (hq : path.get? d.root = some q) {e : Edited b.Part}
    (he : b.Faithful e.part) (hfinite : ∀ x ∈ b.literals (b.model e.part), x.isFinite = true)
    (o : Option Origin) : (d.apply ⟨path.put e d.root, o⟩).Sound where
  faithful := by
    rw [Document.root_apply]
    exact h.faithful.put he
  finite x hx := by
    have hput : (path.put e d.root).model = path.putModel (b.model e.part) d.model :=
      path.model_put e hq
    rw [Document.model_apply, hput] at hx
    rcases Path.mem_literals_putModel (a := .act) hx with hx | hx
    · exact hfinite x hx
    · exact h.finite x hx

/-- The numbers of a part are numbers of the script. -/
theorem finite_part {path : Path .act b} {q : b.Part} (hq : path.get? d.root = some q) :
    ∀ x ∈ b.literals (b.model q), x.isFinite = true :=
  fun x hx => h.finite x (Path.literals_model? (a := .act) (Path.model?_of_get? hq) hx)

theorem change {path : Path .act b} {edit : b.Part → Except SessionFault (Edited b.Part)}
    (hedit : ∀ {q e}, b.Faithful q → (∀ x ∈ b.literals (b.model q), x.isFinite = true) →
      edit q = .ok e →
        b.Faithful e.part ∧ ∀ x ∈ b.literals (b.model e.part), x.isFinite = true) :
    (d.change path edit).1.Sound := by
  unfold Document.change
  split
  · exact h
  · rename_i q hq
    split
    · rename_i e he
      obtain ⟨hfaithful, hfinite⟩ := hedit (h.faithful.get? hq) (h.finite_part hq) he
      exact h.put hq hfaithful hfinite e.origin
    · exact h

theorem accept {place : Place .act} {part : place.target.Part}
    (hpart : place.path.get? d.root = some part) {c : Component}
    (hc : ∀ x ∈ c.literals, x.isFinite = true) {e : Edited place.target.Part}
    (he : place.target.accept part c = .ok e) (o : Option Origin) :
    (d.apply ⟨place.path.put e d.root, o⟩).Sound := by
  refine h.put hpart (Target.faithful_accept (h.faithful.get? hpart) he) (fun x hx => ?_) o
  rcases (place.target.takes_accept he).mem_literals hx with hx | hx
  · exact hc x hx
  · exact h.finite_part hpart x hx

theorem edit {path : Path .act b} {part : b.Part} (hpart : path.get? d.root = some part)
    {x : Action} (hx : ∀ c ∈ x.handed, ∀ y ∈ c.literals, y.isFinite = true) {e : Edited b.Part}
    (he : x.on b part = .ok e) : (d.apply ⟨path.put e d.root, e.origin⟩).Sound := by
  have hdoes := Action.on_does (h.faithful.get? hpart) he
  refine h.put hpart hdoes.faithful (fun y hy => ?_) _
  rcases hdoes.edits.mem_literals hy with hy | hy | ⟨c, hc, hy⟩
  · exact hy
  · exact h.finite_part hpart y hy
  · exact hx c hc y hy

theorem operate (op : Operation)
    (hop : ∀ c ∈ (Deed.operate op).handed, ∀ y ∈ c.literals, y.isFinite = true) :
    (op.on d).1.Sound := by
  have hends := op.ends d
  generalize op.on d = after at hends
  cases hends with
  | fault | missedOn => exact h
  | missedAt after => exact h.settle after
  | setReadOnly r =>
    exact h.of_model (h.faithful.setReadOnly r) (ActNode.model_setReadOnly r d.root)
  | highlighted => exact h.highlight _
  | droppedAt hl hc he =>
    exact (h.accept (Site.target?_eq_some hl).2 (Drag.finite_carried hc) he.accept _).highlight _
  | droppedOn hpart hc he => exact h.accept hpart (Drag.finite_carried hc) he.accept _
  | @accepted _ _ c _ hpart he => exact h.accept hpart (hop c (List.mem_singleton_self c)) he _
  | edited hpart he => exact h.edit hpart hop he

/-- Whatever is done with components of finite numbers, the script has finite numbers afterwards. -/
theorem deed (deed : Deed) (hdeed : ∀ c ∈ deed.handed, ∀ y ∈ c.literals, y.isFinite = true) :
    (deed.on d).1.Sound := by
  cases deed with
  | operate op =>
    change (op.inPlace d).1.Sound
    rw [op.inPlace_eq]
    exact h.operate op hdeed
  | setReadOnlyAt path r =>
    refine h.change fun {q e} hfaithful hfinite he => ?_
    cases he
    exact ⟨hfaithful.setReadOnly r, (Site.model_setReadOnly r _ q).symm ▸ hfinite⟩
  | setHighlightedAt place on =>
    refine h.change fun {q e} hfaithful hfinite he => ?_
    cases he
    exact ⟨Target.faithful_setHighlighted hfaithful on,
      (place.target.model_setHighlighted on q).symm ▸ hfinite⟩
  | clearHighlights => exact h.highlight _
  | listTargets | markClean | subscribe => exact ⟨h.faithful, h.finite⟩

end Document.Sound

/-! ## Documents that were worked on -/

/-- A component that was loaded, one of the palette, or the copy of a part of the document. -/
inductive Document.Offers (d : Document) : Component → Prop
  | loaded {text : String} {c : Component} (h : Component.ofText text = .ok c) : Offers d c
  | palette {e : PaletteEntry} (h : e ∈ Palette.entries) : Offers d e.component
  | part {b : Site} {path : Path .act b} {q : b.Part} {c : Component}
    (hq : path.get? d.root = some q) (hc : b.snapshot? q = some c) : Offers d c

theorem Site.literals_snapshot {s : Site} {p : s.Part} {c : Component}
    (h : s.snapshot? p = some c) : c.literals = s.literals (s.model p) := by
  cases s with
  | node | statement | scene =>
    cases h
    rfl
  | slot | commands | sequence | scenes | act => cases h

theorem Document.Offers.finite {c : Component} (h : d.Offers c) (hd : d.Sound) :
    ∀ x ∈ c.literals, x.isFinite = true := by
  cases h with
  | loaded h => exact (Component.loaded_bounds h).1
  | palette h => exact (Palette.entries_bounds _ h).1
  | part hq hc =>
    rw [Site.literals_snapshot hc]
    exact hd.finite_part hq

/-- A document that was opened from a text and then worked on, with components there are. Drags may
carry anything. -/
inductive Document.Worked (text : String) : Document → Prop
  | opened {a : Act} {d : Document} (ha : Act.ofText text = .ok a)
    (hd : Document.ofAct a = .ok d) : Worked text d
  | after {d : Document} (h : Worked text d) (deed : Deed)
    (hdeed : ∀ c ∈ deed.handed, d.Offers c) : Worked text (deed.on d).1

theorem Document.Worked.sound {text : String} (h : Worked text d) : d.Sound := by
  induction h with
  | opened ha hd =>
    exact ⟨(Document.settled_ofAct hd).faithful,
      (Document.model_ofAct hd).symm ▸ Act.loaded_finite ha⟩
  | after _ deed hdeed ih => exact ih.deed deed fun c hc => (hdeed c hc).finite ih

/-- However a loaded script is worked on, all its numbers are finite, each is a number in its text,
with a category or without, and the script equals itself. -/
theorem Document.Worked.numbers_finite {text : String} (h : Worked text d) :
    (∀ x ∈ d.model.literals, x.isFinite = true) ∧
    (∀ json ∈ [d.model.toJson, (Component.act d.model).toJson], ∀ n ∈ json.numerals,
      n.text ≠ "null" ∧ ∃ m, n.readBack? = some (.number m)) ∧
    d.model.agrees d.model = true := by
  have hfinite := h.sound.finite
  refine ⟨hfinite, fun json hjson n hn => ?_, Act.agrees_self _ hfinite⟩
  have hnumerals : json.numerals = d.model.literals.map .real := by
    rcases List.mem_cons.mp hjson with rfl | hjson
    · exact Act.numerals_toJson _
    · rw [List.mem_singleton.mp hjson]
      exact Component.numerals_toJson _
  rw [hnumerals] at hn
  obtain ⟨x, hx, rfl⟩ := List.mem_map.mp hn
  obtain ⟨m, hm⟩ := Binary64.exists_readBack (hfinite x hx)
  refine ⟨fun hnull => ?_, m, hm⟩
  have hread : (Json.ofText "null").toOption = some .null := Json.ofText_compact .null
  rw [Numeral.readBack?, hnull, hread] at hm
  cases hm

/-- A scene of the palette, and texts typed into its duration; the first two are refused. -/
def sampleTexts : List Deed :=
  [.operate (.accept ⟨.scenes, .step .scenes .here⟩ (.scene Palette.exampleTextScene)),
   .operate (.edit sampleDurationNode (.setText "inf")),
   .operate (.edit sampleDurationNode (.setText "1e999")),
   .operate (.edit sampleDurationNode (.setText " 5e0 "))]

theorem sampleTexts_finite :
    ∃ d, Document.Worked "\x7b\"scenes\":[]\x7d" d ∧ d.model.literals = [.ofInt 5] ∧
      (∀ x ∈ d.model.literals, x.isFinite = true) ∧
      (∀ n ∈ d.model.toJson.numerals, n.text ≠ "null") ∧ d.model.agrees d.model = true := by
  obtain ⟨d, hd⟩ : ∃ d, Document.ofAct ⟨[]⟩ = .ok d := ⟨_, rfl⟩
  have hload : Act.ofText "\x7b\"scenes\":[]\x7d" = .ok ⟨[]⟩ := by decide +kernel
  have hpalette : ∀ c ∈ [Component.scene Palette.exampleTextScene], d.Offers c :=
    List.forall_mem_singleton.mpr (.palette (e := ⟨"Text Scene", _⟩) (by simp [Palette.entries]))
  have htyped : ∀ (text : String) (d' : Document),
      ∀ c ∈ (Deed.operate (.edit sampleDurationNode (.setText text))).handed, d'.Offers c :=
    fun text d' => List.forall_mem_nil _
  have hdropped := (Document.Worked.opened hload hd).after
    (.operate (.accept ⟨.scenes, .step .scenes .here⟩ (.scene Palette.exampleTextScene))) hpalette
  have hworked : Document.Worked "\x7b\"scenes\":[]\x7d" (d.perform sampleTexts) :=
    ((hdropped.after _ (htyped "inf" _)).after _ (htyped "1e999" _)).after _ (htyped " 5e0 " _)
  have hliterals : (d.perform sampleTexts).model.literals = [.ofInt 5] := by
    cases hd
    decide +kernel
  obtain ⟨hfinite, hwritten, hself⟩ := hworked.numbers_finite
  exact ⟨_, hworked, hliterals, hfinite,
    fun n hn => (hwritten _ List.mem_cons_self n hn).1, hself⟩

end SceneScript
