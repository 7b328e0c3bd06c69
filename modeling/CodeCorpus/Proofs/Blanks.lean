import CodeCorpus.Text.Blank
import Mathlib.Data.List.DropRight

/-!
# Trimmed texts

Trimming takes away blanks at the ends and nothing else: the characters that are not blank stay, and blanks put
around a text are taken away again.
-/

namespace CodeCorpus

namespace Text

theorem trimEndChars_eq (cs : List Char) : trimEndChars cs = cs.rdropWhile isBlank := rfl

theorem trimEndChars_append {cs tail : List Char} (h : ∀ c ∈ tail, isBlank c = true) :
    trimEndChars (cs ++ tail) = trimEndChars cs := by
  unfold trimEndChars
  rw [List.reverse_append, List.dropWhile_append_of_pos]
  intro c hc
  exact h c (List.mem_reverse.mp hc)

theorem trimEndChars_cut (cs : List Char) : ∃ tail, cs = trimEndChars cs ++ tail ∧ ∀ c ∈ tail, isBlank c = true := by
  refine ⟨cs.rtakeWhile isBlank, List.rdropWhile_append_rtakeWhile.symm, ?_⟩
  intro c hc
  exact List.mem_rtakeWhile_imp hc

theorem isBlank_last_trimEndChars {cs : List Char} {c : Char} (h : (trimEndChars cs).getLast? = some c) :
    isBlank c = false := by
  rw [trimEndChars_eq] at h
  have hne : cs.rdropWhile isBlank ≠ [] := by
    intro hnil
    rw [hnil] at h
    cases h
  have hlast := List.rdropWhile_last_not isBlank cs hne
  rw [List.getLast?_eq_some_getLast hne] at h
  cases h
  simpa using hlast

theorem trim_pad {gap tail : List Char} (cs : List Char) (hgap : ∀ c ∈ gap, isBlank c = true)
    (htail : ∀ c ∈ tail, isBlank c = true) : trim (String.ofList (gap ++ cs ++ tail)) = trim (String.ofList cs) := by
  have hends : trimEndChars (trimStartChars (cs ++ tail)) = trimEndChars (trimStartChars cs) := by
    unfold trimStartChars
    rw [List.dropWhile_append]
    split
    · rename_i hcs
      rw [List.isEmpty_iff.mp hcs, List.dropWhile_eq_nil_iff.mpr htail]
    · exact trimEndChars_append htail
  unfold trim
  rw [String.toList_ofList, String.toList_ofList, List.append_assoc, ← hends]
  unfold trimStartChars
  rw [List.dropWhile_append_of_pos hgap]

theorem trim_eq_empty_iff {cs : List Char} : trim (String.ofList cs) = "" ↔ ∀ c ∈ cs, isBlank c = true := by
  unfold trim trimStartChars
  rw [String.toList_ofList, String.ofList_eq_empty_iff]
  constructor
  · intro h c hc
    rw [← List.takeWhile_append_dropWhile (p := isBlank) (l := cs), List.mem_append] at hc
    rcases hc with hc | hc
    · exact List.mem_takeWhile_imp hc
    · exact List.rdropWhile_eq_nil_iff.mp h c hc
  · intro h
    rw [List.dropWhile_eq_nil_iff.mpr h]
    rfl

theorem trim_empty : trim "" = "" := by
  simp [trim, trimStartChars, trimEndChars]

theorem mem_of_mem_trim {s : String} {c : Char} (h : c ∈ (trim s).toList) : c ∈ s.toList := by
  unfold trim trimStartChars at h
  rw [String.toList_ofList] at h
  exact (List.dropWhile_sublist _).mem ((List.rdropWhile_prefix isBlank _).mem h)

theorem mem_trim {s : String} {c : Char} (h : c ∈ s.toList) (hc : isBlank c = false) : c ∈ (trim s).toList := by
  have hnot : ∀ cs : List Char, (∀ d ∈ cs, isBlank d = true) → c ∉ cs := by
    intro cs hcs hmem
    rw [hcs c hmem] at hc
    cases hc
  have hstart : c ∈ trimStartChars s.toList := by
    rw [← List.takeWhile_append_dropWhile (p := isBlank) (l := s.toList), List.mem_append] at h
    exact h.resolve_left (hnot _ fun d hd => List.mem_takeWhile_imp hd)
  obtain ⟨tail, hcut, htail⟩ := trimEndChars_cut (trimStartChars s.toList)
  rw [hcut, List.mem_append] at hstart
  unfold trim
  rw [String.toList_ofList]
  exact hstart.resolve_right (hnot tail htail)

end Text

end CodeCorpus
