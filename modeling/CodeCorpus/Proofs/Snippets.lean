import CodeCorpus.Proofs.Blanks
import CodeCorpus.Proofs.Windows
import CodeCorpus.Snippet
import Mathlib.Data.List.Forall2

/-!
# What snippets show

A file has one snippet for each member of its declarations and one for each declaration without members, in
order. The lines around a member are the same for all members of a declaration, and the lines of the member are
those of its text: they lose blanks at their ends and the indentation of the source, and nothing else.
-/

namespace CodeCorpus

namespace Snippet

/-! ## Lines of a member -/

def IsIndent (c : Char) : Prop := c = ' ' ∨ c = '\t'

theorem IsIndent.isBlank {c : Char} (h : IsIndent c) : Text.isBlank c = true := by
  rcases h with rfl | rfl <;> decide

/-- A line without the spaces and tabs it starts with, of which at most `width` are cut, and without the blanks
it ends with. -/
def Kept (width : Nat) (line kept : String) : Prop :=
  ∃ gap tail, line.toList = gap ++ kept.toList ++ tail ∧ (∀ c ∈ gap, IsIndent c) ∧
    (∀ c ∈ tail, Text.isBlank c = true) ∧ gap.length ≤ width ∧
    (gap.length < width → ∀ c, kept.toList.head? = some c → ¬ IsIndent c)

/-- A line of a member as a snippet has it, where the signature is indented with `tab`. -/
structure Written (tab : String) (width : Nat) (line written : String) : Prop where
  trimmed : Text.trim written = Text.trim line
  blank : Text.trim line = "" → written = ""
  indented : Text.trim line ≠ "" → ∃ kept, written = tab ++ "\t" ++ kept ∧ Kept width line kept
  ended : ∀ c, written.toList.getLast? = some c → Text.isBlank c = false
  single : '\n' ∉ written.toList

theorem stripIndent_cut (width : Nat) (cs : List Char) :
    ∃ gap, cs = gap ++ stripIndent width cs ∧ (∀ c ∈ gap, IsIndent c) ∧ gap.length ≤ width ∧
      (gap.length < width → ∀ c, (stripIndent width cs).head? = some c → ¬ IsIndent c) := by
  fun_induction stripIndent width cs with
  | case1 width c cs hc ih =>
    obtain ⟨gap, hcut, hgap, hle, hhead⟩ := ih
    refine ⟨c :: gap, congrArg (c :: ·) hcut, ?_, Nat.succ_le_succ hle, ?_⟩
    · rintro d (_ | ⟨_, hd⟩)
      · simpa [IsIndent] using hc
      · exact hgap d hd
    · intro hlt
      exact hhead (Nat.lt_of_succ_lt_succ hlt)
  | case2 width c cs hc =>
    refine ⟨[], rfl, by simp, Nat.zero_le _, ?_⟩
    rintro - d ⟨⟩
    simpa [IsIndent] using hc
  | case3 width cs hcs =>
    refine ⟨[], rfl, by simp, Nat.zero_le _, ?_⟩
    intro hlt c hc
    cases cs with
    | nil => cases hc
    | cons d cs =>
      obtain ⟨k, rfl⟩ := Nat.exists_eq_succ_of_ne_zero (Nat.ne_of_gt hlt)
      exact absurd rfl (hcs k d cs rfl)

theorem kept_stripIndent (width : Nat) (line : List Char) :
    Kept width (String.ofList line) (String.ofList (Text.trimEndChars (stripIndent width line))) := by
  obtain ⟨gap, hcut, hgap, hle, hhead⟩ := stripIndent_cut width line
  obtain ⟨tail, hkept, htail⟩ := Text.trimEndChars_cut (stripIndent width line)
  refine ⟨gap, tail, ?_, hgap, htail, hle, ?_⟩
  · rw [String.toList_ofList, String.toList_ofList, List.append_assoc, ← hkept]
    exact hcut
  · intro hlt c hc
    apply hhead hlt
    rw [String.toList_ofList] at hc
    rw [hkept, List.head?_append, hc]
    rfl

theorem Kept.trim_eq {width : Nat} {line kept : String} (h : Kept width line kept) : Text.trim line = Text.trim kept := by
  obtain ⟨gap, tail, hcut, hgap, htail, _⟩ := h
  have hpad := Text.trim_pad kept.toList (fun c hc => (hgap c hc).isBlank) htail
  rwa [← hcut, String.ofList_toList, String.ofList_toList] at hpad

theorem all_stripIndent_iff (width : Nat) (line : List Char) :
    (stripIndent width line).all Text.isBlank = true ↔ Text.trim (String.ofList line) = "" := by
  obtain ⟨tail, hstrip, htail⟩ := Text.trimEndChars_cut (stripIndent width line)
  rw [(kept_stripIndent width line).trim_eq, Text.trim_eq_empty_iff, List.all_eq_true]
  constructor
  · intro h c hc
    apply h
    rw [hstrip]
    exact List.mem_append_left tail hc
  · intro h c hc
    rw [hstrip, List.mem_append] at hc
    rcases hc with hc | hc
    · exact h c hc
    · exact htail c hc

theorem Written.of_kept {width depth : Nat} {line kept : List Char}
    (hkept : Kept width (String.ofList line) (String.ofList kept)) (hline : '\n' ∉ line)
    (hfull : Text.trim (String.ofList line) ≠ "") (hend : ∀ c, kept.getLast? = some c → Text.isBlank c = false) :
    Written (String.ofList (List.replicate depth '\t')) width (String.ofList line)
      (String.ofList (List.replicate (depth + 1) '\t' ++ kept)) := by
  have htabs : ∀ c ∈ List.replicate (depth + 1) '\t', Text.isBlank c = true := by
    intro c hc
    rw [List.eq_of_mem_replicate hc]
    decide
  have htrim := Text.trim_pad kept htabs fun c (hc : c ∈ []) => nomatch hc
  rw [List.append_nil, ← hkept.trim_eq] at htrim
  have hne : kept ≠ [] := by
    rintro rfl
    exact hfull (hkept.trim_eq.trans Text.trim_empty)
  refine ⟨htrim, fun hempty => absurd hempty hfull, ?_, ?_, ?_⟩
  · intro _
    refine ⟨_, ?_, hkept⟩
    rw [List.replicate_succ', String.ofList_append, String.ofList_append]
  · intro c hc
    rw [String.toList_ofList, List.getLast?_append_of_ne_nil _ hne] at hc
    exact hend c hc
  · obtain ⟨gap, tail, hcut, _⟩ := hkept
    rw [String.toList_ofList, String.toList_ofList] at hcut
    rw [hcut] at hline
    rw [String.toList_ofList, List.mem_append]
    rintro (hmem | hmem)
    · cases List.eq_of_mem_replicate hmem
    · exact hline (by simp [hmem])

theorem written_indentLine (width depth : Nat) {line : List Char} (hline : '\n' ∉ line) :
    Written (String.ofList (List.replicate depth '\t')) width (String.ofList line)
      (indentLine (depth + 1) (stripIndent width line)) := by
  unfold indentLine
  split
  · rename_i hblank
    have hempty := (all_stripIndent_iff width line).mp hblank
    exact ⟨Text.trim_empty.trans hempty.symm, fun _ => rfl, fun hne => absurd hempty hne, by simp, by simp⟩
  · rename_i hfull
    apply Written.of_kept (kept_stripIndent width line) hline
    · intro hempty
      exact hfull ((all_stripIndent_iff width line).mpr hempty)
    · intro c hc
      exact Text.isBlank_last_trimEndChars hc

/-- The lines of a member beside those of its text. The first of them begins where the member does, and only the
others are indented in the source. -/
inductive Retold (tab : String) (column : Nat) : List String → List String → Prop
  | nothing : Retold tab column [] []
  | lines {first written : String} {others rest : List String} : Written tab 0 first written →
      List.Forall₂ (Written tab column) others rest → Retold tab column (first :: others) (written :: rest)

theorem Retold.length_eq {tab : String} {column : Nat} {lines part : List String} (h : Retold tab column lines part) :
    part.length = lines.length := by
  cases h with
  | nothing => rfl
  | lines _ hrest => rw [List.length_cons, List.length_cons, hrest.length_eq]

theorem retold_reindent (text : String) (column depth : Nat) :
    Retold (String.ofList (List.replicate depth '\t')) column (Text.lines text) (reindent text column (depth + 1)) := by
  have hlines : ∀ l ∈ Text.linesFrom [] text.toList, '\n' ∉ l :=
    Text.newline_not_mem_linesFrom [] text.toList (by simp)
  unfold Text.lines reindent
  revert hlines
  cases Text.linesFrom [] text.toList with
  | nil =>
    intro _
    exact .nothing
  | cons first others =>
    intro hlines
    refine .lines (written_indentLine 0 depth (hlines first List.mem_cons_self)) ?_
    rw [List.forall₂_map_left_iff, List.forall₂_map_right_iff, List.forall₂_same]
    intro l hl
    exact written_indentLine column depth (hlines l (List.mem_cons_of_mem first hl))

/-! ## Lines around a member -/

/-- The lines at the top: the usings and a blank line, if there are any. -/
inductive AtTop : List String → List String → Prop
  | nothing : AtTop [] []
  | usings {us : List String} : us ≠ [] → AtTop us (us ++ [""])

/-- The lines that open the namespace, the indentation inside it, and the lines that close it. -/
inductive Wraps : Option String → List String → String → List String → Prop
  | bare : Wraps none [] "" []
  | inside (name : String) : Wraps (some name) ["namespace " ++ name, "\x7b"] "\t" ["\x7d"]

/-- The lines before and after a member of a declaration whose signature is indented with `tab`. -/
def Frames (outline : Outline) (d : Declaration) (tab : String) (head foot : List String) : Prop :=
  ∃ top opening closing, AtTop outline.usings top ∧ Wraps outline.namespaceName opening tab closing ∧
    head = top ++ opening ++ [tab ++ d.signature, tab ++ "\x7b"] ∧ foot = (tab ++ "\x7d") :: closing

def tabOf (outline : Outline) : String := String.ofList (List.replicate (signatureDepth outline) '\t')

theorem frames_header (outline : Outline) (d : Declaration) :
    Frames outline d (tabOf outline) (header outline d) (footer outline) := by
  have htop : AtTop outline.usings (if outline.usings.isEmpty then [] else outline.usings ++ [""]) := by
    cases outline.usings with
    | nil => exact .nothing
    | cons u us => exact .usings (List.cons_ne_nil u us)
  unfold Frames header footer tabOf signatureDepth
  cases outline.namespaceName with
  | none => exact ⟨_, [], [], htop, .bare, rfl, rfl⟩
  | some name => exact ⟨_, _, _, htop, .inside name, rfl, rfl⟩

/-! ## Snippets of a file -/

/-- What a file has snippets about: the members of its declarations, and the declarations without members. -/
def subjects (outline : Outline) : List (Declaration × Option Member) :=
  outline.declarations.flatMap fun d => if d.members = [] then [(d, none)] else d.members.map fun m => (d, some m)

theorem snippets_eq (outline : Outline) :
    outline.snippets = (subjects outline).map fun x => around outline x.1 x.2 := by
  unfold Outline.snippets subjects
  rw [List.map_flatMap]
  congr 1
  funext d
  unfold ofDeclaration
  cases d.members with
  | nil => rfl
  | cons m ms =>
    rw [if_neg (by simp), if_neg (by simp), List.map_map]
    rfl

/-- The lines between those around a member: none, or those of a member. -/
inductive Between (tab : String) : Option Member → List String → Prop
  | alone : Between tab none []
  | member {m : Member} {part : List String} : Retold tab m.startColumn (Text.lines m.text) part →
      part.length = (Text.lines m.text).length → Between tab (some m) part

/-- A snippet about a declaration or a member of it, between given lines. -/
structure Shows (outline : Outline) (tab : String) (head : Declaration → List String) (foot : List String)
    (x : Declaration × Option Member) (s : Snippet) : Prop where
  namespaceName : s.namespaceName = outline.namespaceName.getD ""
  typeName : s.typeName = x.1.name
  memberName : s.memberName = x.2.bind Member.name
  text : ∃ part, s.text = Text.unlines (head x.1 ++ part ++ foot) ∧ Between tab x.2 part

theorem shows_around (outline : Outline) (x : Declaration × Option Member) :
    Shows outline (tabOf outline) (header outline) (footer outline) x (around outline x.1 x.2) := by
  obtain ⟨d, member⟩ := x
  refine ⟨rfl, rfl, rfl, _, rfl, ?_⟩
  cases member with
  | none => exact .alone
  | some m =>
    have hpart := retold_reindent m.text m.startColumn (signatureDepth outline)
    exact .member hpart hpart.length_eq

/-- **Nothing of a member is lost.** A file has one snippet for each member of each declaration, in order, and one
for a declaration without members. The lines above and below are the same for all members of a declaration. Those
of the member are the lines of its text, one for one: each is that line but for blanks at its ends, and is indented
by one tab more than the signature, before what is kept of it; a blank line is empty, and none ends with a blank. -/
theorem snippets_complete (outline : Outline) :
    ∃ (tab : String) (head : Declaration → List String) (foot : List String),
      (∀ d ∈ outline.declarations, Frames outline d tab (head d) foot) ∧
      List.Forall₂ (Shows outline tab head foot) (subjects outline) outline.snippets := by
  refine ⟨tabOf outline, header outline, footer outline, fun d _ => frames_header outline d, ?_⟩
  rw [snippets_eq, List.forall₂_map_right_iff, List.forall₂_same]
  intro x _
  exact shows_around outline x

end Snippet

end CodeCorpus
