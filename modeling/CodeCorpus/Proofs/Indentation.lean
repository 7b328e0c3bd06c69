import CodeCorpus.Proofs.Snippets

/-!
# Snippets and the depth of the source

A member is shown as it would be had the source been indented more deeply or less. Its text starts at its column, so
only the lines after the first bring their indentation along, and as much of it is cut as the column is wide.
-/

namespace CodeCorpus

namespace Snippet

/-- The characters with `ws` in front of every line but the first. -/
def deepenChars (ws : List Char) : List Char → List Char
  | [] => []
  | '\n' :: cs => '\n' :: if cs.isEmpty then [] else ws ++ deepenChars ws cs
  | c :: cs => c :: deepenChars ws cs

def deepen (ws text : String) : String := String.ofList (deepenChars ws.toList text.toList)

theorem deepenChars_ne_nil (ws : List Char) {cs : List Char} (h : cs ≠ []) : deepenChars ws cs ≠ [] := by
  fun_cases deepenChars ws cs with
  | case1 => exact absurd rfl h
  | case2 => exact List.cons_ne_nil _ _
  | case3 => exact List.cons_ne_nil _ _

section
variable {ws : List Char} (hws : ∀ c ∈ ws, IsIndent c)
include hws

theorem closeLine_append (line : List Char) : Text.closeLine (line ++ ws.reverse) = ws ++ Text.closeLine line := by
  cases line with
  | nil =>
    -- an empty line loses no `\r` of what stands before it, for there is none
    have hopen : Text.closeLine ws.reverse = ws.reverse.reverse := by
      unfold Text.closeLine
      split
      · rename_i rest hrest
        have hmem : '\r' ∈ ws := by
          rw [← List.mem_reverse, hrest]
          exact List.mem_cons_self
        rcases hws '\r' hmem with h | h <;> cases h
      · rfl
    rw [List.nil_append, hopen, List.reverse_reverse]
    exact (List.append_nil ws).symm
  | cons c line =>
    by_cases hc : c = '\r'
    · subst hc
      simp [Text.closeLine]
    · simp [Text.closeLine, hc]

/-- What is put before the current line comes to stand in the first line, if any line is left. -/
theorem linesFrom_within {line cs : List Char} (h : line ≠ [] ∨ cs ≠ []) :
    Text.linesFrom (line ++ ws.reverse) cs = (Text.linesFrom line cs).modifyHead (ws ++ ·) := by
  induction cs generalizing line with
  | nil =>
    have hline : line ≠ [] := h.resolve_right (· rfl)
    simp [Text.linesFrom, hline]
  | cons c cs ih =>
    by_cases hc : c = '\n'
    · subst hc
      rw [Text.linesFrom, Text.linesFrom, closeLine_append hws]
      rfl
    · rw [Text.linesFrom, Text.linesFrom, ← List.cons_append]
      · exact ih (.inl (List.cons_ne_nil c line))
      · exact hc
      · exact hc

theorem linesFrom_indent (cs : List Char) (line : List Char) :
    Text.linesFrom line (ws ++ cs) = Text.linesFrom (ws.reverse ++ line) cs := by
  induction ws generalizing line with
  | nil => rfl
  | cons c ws ih =>
    have hc : c ≠ '\n' := by
      rintro rfl
      rcases hws '\n' List.mem_cons_self with h | h <;> cases h
    rw [List.cons_append, Text.linesFrom, ih fun d hd => hws d (List.mem_cons_of_mem c hd)]
    · rw [List.reverse_cons, List.append_assoc]
      rfl
    · exact hc

theorem linesFrom_deepenChars (line cs : List Char) :
    Text.linesFrom line (deepenChars ws cs) =
      match Text.linesFrom line cs with
      | [] => []
      | first :: others => first :: others.map (ws ++ ·) := by
  induction cs generalizing line with
  | nil =>
    rw [deepenChars, Text.linesFrom]
    split <;> rfl
  | cons c cs ih =>
    by_cases hc : c = '\n'
    · subst hc
      rw [deepenChars, Text.linesFrom, Text.linesFrom]
      refine congrArg (Text.closeLine line :: ·) ?_
      -- a terminator at the end of the text has no line after it, and nothing is put there
      cases cs with
      | nil => rfl
      | cons d ds =>
        rw [if_neg (by simp), linesFrom_indent hws, List.append_nil, ← List.nil_append ws.reverse,
          linesFrom_within hws (.inr (deepenChars_ne_nil ws (List.cons_ne_nil d ds))), ih]
        cases Text.linesFrom [] (d :: ds) <;> rfl
    · rw [deepenChars, Text.linesFrom, Text.linesFrom]
      · exact ih (c :: line)
      · exact hc
      · exact hc
      · exact hc

theorem stripIndent_indent (width : Nat) (cs : List Char) :
    stripIndent (width + ws.length) (ws ++ cs) = stripIndent width cs := by
  induction ws with
  | nil => rfl
  | cons c ws ih =>
    have hc : (c == ' ' || c == '\t') = true := by simpa [IsIndent] using hws c List.mem_cons_self
    rw [List.cons_append, List.length_cons, ← Nat.add_assoc, stripIndent, if_pos hc]
    exact ih fun d hd => hws d (List.mem_cons_of_mem c hd)

end

section
variable {ws : String} (hws : ∀ c ∈ ws.toList, IsIndent c)
include hws

theorem lines_deepen (text : String) : Text.lines (deepen ws text) =
    match Text.lines text with
    | [] => []
    | first :: others => first :: others.map (ws ++ ·) := by
  unfold Text.lines deepen
  rw [String.toList_ofList, linesFrom_deepenChars hws]
  cases Text.linesFrom [] text.toList with
  | nil => rfl
  | cons first others => simp

/-- A text that is indented more deeply, and whose column is as much greater, reads the same. -/
theorem reindent_deepen (text : String) (column depth : Nat) :
    reindent (deepen ws text) (column + ws.length) depth = reindent text column depth := by
  unfold reindent deepen
  rw [String.toList_ofList, linesFrom_deepenChars hws]
  cases Text.linesFrom [] text.toList with
  | nil => rfl
  | cons first others =>
    refine congrArg (indentLine depth first :: ·) ?_
    rw [List.map_map]
    apply List.map_congr_left
    intro l _
    rw [Function.comp_apply, ← String.length_toList, stripIndent_indent hws]

end

/-! ## Files with some members deeper -/

/-- The member as it is where the source is indented more deeply. -/
def deepenMember (ws : String) (m : Member) : Member :=
  { m with text := deepen ws m.text, startColumn := m.startColumn + ws.length }

/-- The same declaration, with some members deeper in the source. -/
def DeepenedIn (ws : String) (d d' : Declaration) : Prop :=
  ∃ ms, d' = { d with members := ms } ∧ List.Forall₂ (fun m m' => m' = m ∨ m' = deepenMember ws m) d.members ms

def Deepened (ws : String) (outline outline' : Outline) : Prop :=
  ∃ ds, outline' = { outline with declarations := ds } ∧ List.Forall₂ (DeepenedIn ws) outline.declarations ds

theorem map_eq_of_forall₂ {α β γ : Type} {f : α → γ} {g : β → γ} {as : List α} {bs : List β}
    (h : List.Forall₂ (fun a b => g b = f a) as bs) : bs.map g = as.map f := by
  induction h with
  | nil => rfl
  | cons hab _ ih => rw [List.map_cons, List.map_cons, hab, ih]

section
variable {ws : String} (hws : ∀ c ∈ ws.toList, IsIndent c)
include hws

theorem around_deepenMember (outline : Outline) (d : Declaration) (m : Member) :
    around outline d (some (deepenMember ws m)) = around outline d (some m) := by
  unfold around memberLines deepenMember
  simp only [Option.map_some, Option.bind_some, reindent_deepen hws]

theorem ofDeclaration_deepened {outline : Outline} {ds : List Declaration} {d d' : Declaration}
    (h : DeepenedIn ws d d') : ofDeclaration { outline with declarations := ds } d' = ofDeclaration outline d := by
  obtain ⟨ms, rfl, hms⟩ := h
  have hempty : ms.isEmpty = d.members.isEmpty := by
    rw [Bool.eq_iff_iff, List.isEmpty_iff_length_eq_zero, List.isEmpty_iff_length_eq_zero, hms.length_eq]
  have hmap : (ms.map fun m => around outline d (some m)) = d.members.map fun m => around outline d (some m) := by
    apply map_eq_of_forall₂
    apply hms.imp
    rintro m m' (rfl | rfl)
    · rfl
    · exact around_deepenMember hws outline d m
  unfold ofDeclaration
  rw [hempty, ← hmap]
  rfl

end

/-- **How deep the source was indented is not seen.** Spaces and tabs in front of every line of a member but its
first change nothing once its column is raised by their number, and so no snippet of a file changes when any of
its members are moved. -/
theorem indentation_unseen {ws : String} {outline outline' : Outline} (hws : ∀ c ∈ ws.toList, IsIndent c)
    (h : Deepened ws outline outline') :
    (∀ text, Text.lines (deepen ws text) =
      match Text.lines text with
      | [] => []
      | first :: others => first :: others.map (ws ++ ·)) ∧
    (∀ text column depth, reindent (deepen ws text) (column + ws.length) depth = reindent text column depth) ∧
    outline'.snippets = outline.snippets := by
  refine ⟨lines_deepen hws, reindent_deepen hws, ?_⟩
  obtain ⟨ds, rfl, hds⟩ := h
  unfold Outline.snippets
  rw [List.flatMap_def, List.flatMap_def]
  refine congrArg List.flatten (map_eq_of_forall₂ (hds.imp ?_))
  intro d d' hd
  exact ofDeclaration_deepened hws hd

/-- A file with one method, whose text starts at a column. -/
def methodAt (column : Nat) (text : String) : Outline :=
  { usings := ["using System;"]
    namespaceName := some "N"
    declarations := [
      { kind := .classType
        name := "C"
        modifiers := ["public"]
        typeParameters := none
        baseTypes := []
        members := [⟨"method_declaration", some "M", text, column⟩] }]
    hasSyntaxErrors := false }

/-- Lines that end in several ways, blank ones, and one that is indented less than the first. -/
theorem indentation_unseen_ragged :
    (∀ c ∈ " \t".toList, IsIndent c) ∧
      Deepened " \t" (methodAt 4 "void M()\r\n    \x7b\n\n  \tx();  \r\n y();\n\t\n    \x7d")
        (methodAt 6 "void M()\r\n \t    \x7b\n \t\n \t  \tx();  \r\n \t y();\n \t\t\n \t    \x7d") ∧
      (methodAt 6 "void M()\r\n \t    \x7b\n \t\n \t  \tx();  \r\n \t y();\n \t\t\n \t    \x7d").snippets =
        (methodAt 4 "void M()\r\n    \x7b\n\n  \tx();  \r\n y();\n\t\n    \x7d").snippets := by
  have hws : ∀ c ∈ " \t".toList, IsIndent c := by simp [IsIndent]
  have hdeep : Deepened " \t" (methodAt 4 "void M()\r\n    \x7b\n\n  \tx();  \r\n y();\n\t\n    \x7d")
      (methodAt 6 "void M()\r\n \t    \x7b\n \t\n \t  \tx();  \r\n \t y();\n \t\t\n \t    \x7d") :=
    ⟨_, rfl, .cons ⟨_, rfl, .cons (.inr (by decide +kernel)) .nil⟩ .nil⟩
  exact ⟨hws, hdeep, (indentation_unseen hws hdeep).2.2⟩

end Snippet

end CodeCorpus
