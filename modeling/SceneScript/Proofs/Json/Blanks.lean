import Mathlib.Data.List.DropRight
import SceneScript.Json.Reader
import SceneScript.Proofs.Json.Strings

/-! Blanks between the parts of a text. A reader drops them from the front, so that blanks in front
of what it reads make no difference, and a text is the blanks in front of it and what is behind
them. -/

namespace SceneScript.Json

open Source

/-- Whatever is dropped from one text in front is dropped in front of another. -/
theorem skipBlank_blank {bs : Source} (hbs : ∀ s ∈ bs, s.isBlank = true) (other : Source) :
    skipBlank (bs ++ other) = skipBlank other :=
  List.dropWhile_append_of_pos hbs

theorem skipBlank_append {cs : List Char} (h : ∀ c ∈ cs, (Symbol.char c).isBlank = true)
    (src : Source) : skipBlank (ofChars cs ++ src) = skipBlank src := by
  refine skipBlank_blank (fun s hs => ?_) src
  obtain ⟨c, hc, rfl⟩ := List.mem_map.mp hs
  exact h c hc

theorem skipBlank_cons {s : Symbol} (h : s.isBlank = false) (src : Source) :
    skipBlank (s :: src) = s :: src := by
  simp [skipBlank, h]

theorem skipBlank_skipBlank (src : Source) : skipBlank (skipBlank src) = skipBlank src :=
  List.dropWhile_idempotent ..

theorem skipBlank_head {src behind : Source} {s : Symbol} (h : skipBlank src = s :: behind) :
    s.isBlank = false := by
  have hhead := List.head?_dropWhile_not Symbol.isBlank src
  rw [show src.dropWhile Symbol.isBlank = s :: behind from h] at hhead
  exact hhead

theorem exists_blank (src : Source) : ∃ bs : Source,
    (∀ s ∈ bs, s.isBlank = true) ∧ src = bs ++ skipBlank src ∧
      ∀ other, skipBlank (bs ++ other) = skipBlank other :=
  ⟨src.takeWhile Symbol.isBlank, fun _ => List.mem_takeWhile_imp,
    List.takeWhile_append_dropWhile.symm, skipBlank_blank fun _ => List.mem_takeWhile_imp⟩

/-! ## Values behind blanks -/

theorem readValue_skipBlank (n depth : Nat) (src : Source) :
    readValue n depth (skipBlank src) = readValue n depth src := by
  unfold readValue
  rw [skipBlank_skipBlank]

theorem readValue_append {cs : List Char} (h : ∀ c ∈ cs, (Symbol.char c).isBlank = true)
    (n depth : Nat) (src : Source) :
    readValue n depth (ofChars cs ++ src) = readValue n depth src := by
  rw [← readValue_skipBlank, skipBlank_append h, readValue_skipBlank]

end SceneScript.Json
