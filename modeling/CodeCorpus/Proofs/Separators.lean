import CodeCorpus.Path
import CodeCorpus.Text.Blank
import Mathlib.Data.List.Forall2

/-!
# Separators in paths

Every backslash of a path becomes a slash, also where a backslash is a character of a name like any other. So two
paths become the same just if they differ in nothing but their separators.
-/

namespace CodeCorpus.Path

/-- The characters between the parts of a path on one system or another. -/
def isSeparator (c : Char) : Bool := c = '/' || c = '\\'

/-- The paths differ in nothing but which separators they are written with. -/
def Alike (s t : String) : Prop :=
  List.Forall₂ (fun a b => a = b ∨ isSeparator a ∧ isSeparator b) s.toList t.toList

instance : DecidableRel Alike := fun s t => inferInstanceAs (Decidable (List.Forall₂ _ s.toList t.toList))

/-- What becomes of a character of a path. -/
def slashed (c : Char) : Char := if c = '\\' then '/' else c

theorem normalize_toList (s : String) : (normalize s).toList = s.toList.map slashed := String.toList_map

theorem slashed_eq_iff {a b : Char} : slashed a = slashed b ↔ a = b ∨ isSeparator a ∧ isSeparator b := by
  unfold slashed isSeparator
  by_cases ha : a = '\\' <;> by_cases hb : b = '\\' <;> simp [ha, hb] <;> grind

variable {s t : String}

theorem normalize_eq_iff : normalize s = normalize t ↔ Alike s t := by
  unfold Alike
  simp only [← slashed_eq_iff]
  rw [← String.toList_inj, normalize_toList, normalize_toList, ← List.forall₂_eq_eq_eq, List.forall₂_map_left_iff,
    List.forall₂_map_right_iff]

theorem normalize_of_not_mem (h : '\\' ∉ s.toList) : normalize s = s := by
  rw [← String.toList_inj, normalize_toList, List.map_congr_left (g := id), List.map_id]
  intro c hc
  have hne : c ≠ '\\' := fun he => h (he ▸ hc)
  simp [slashed, hne]

theorem not_mem_normalize (s : String) : '\\' ∉ (normalize s).toList := by
  rw [normalize_toList, List.mem_map]
  intro ⟨c, _, hc⟩
  by_cases he : c = '\\' <;> simp [slashed, he] at hc

theorem Alike.normalize_eq (h : Alike s t) (hs : '\\' ∉ s.toList) : normalize t = s := by
  rw [← normalize_eq_iff.mpr h, normalize_of_not_mem hs]

theorem isBlankText_normalize (s : String) : Text.isBlankText (normalize s) = Text.isBlankText s := by
  have hblank : Text.isBlank ∘ slashed = Text.isBlank := by
    funext c
    by_cases hc : c = '\\'
    · subst hc
      rfl
    · simp [slashed, hc]
  unfold Text.isBlankText
  rw [normalize_toList, List.all_map, hblank]

theorem Alike.isBlankText_eq (h : Alike s t) : Text.isBlankText s = Text.isBlankText t := by
  rw [← isBlankText_normalize, normalize_eq_iff.mpr h, isBlankText_normalize]

end CodeCorpus.Path
