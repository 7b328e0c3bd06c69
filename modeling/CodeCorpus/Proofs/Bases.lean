import CodeCorpus.Proofs.Blanks
import CodeCorpus.Proofs.Outlines

/-!
# Base types

The base types of a declaration are the entries of its base list, in order, each up to its first opening
parenthesis. This takes away the arguments of a constructor call, but also part of a type that names a tuple
(`base_types_kept_iff`).
-/

namespace CodeCorpus.Outline

open CodeCorpus.Syntax
open CodeCorpus.Syntax.Node (OneEach)

/-! ## Entries -/

/-- The base list of a declaration: the last of its children that is one. -/
def IsBaseList (n list : Node) : Prop :=
  ∃ before after, n.children = before ++ list :: after ∧ list.kind = "base_list" ∧
    ∀ c ∈ after, c.kind ≠ "base_list"

/-- The types a base list names. The arguments of a constructor call may stand beside its type or inside the entry. -/
def entries (list : Node) : List Node :=
  list.children.filter fun c => c.named ∧ c.kind ≠ "argument_list" ∧ c.isComment = false

/-- What an entry says besides the arguments of a constructor call, which end it. -/
inductive OwnText (source : ByteArray) (e : Node) : String → Prop
  | plain : (∀ c ∈ e.children, c.kind ≠ "argument_list") → OwnText source e (textOf source e)
  | call {arguments : Node} {own : String} : arguments ∈ e.children → arguments.kind = "argument_list" →
      textOf source e = own ++ textOf source arguments → (textOf source arguments).toList.head? = some '(' →
      OwnText source e own

/-- Texts as base types: trimmed, and without the empty ones. -/
def asBases (texts : List String) : List String := (texts.map Text.trim).filter fun s => !s.isEmpty

theorem lastOfKind?_eq_some_iff {n list : Node} : lastOfKind? "base_list" n = some list ↔ IsBaseList n list := by
  unfold lastOfKind? IsBaseList
  rw [List.find?_eq_some_iff_append]
  constructor
  · rintro ⟨hkind, after, before, hall, hafter⟩
    refine ⟨before.reverse, after.reverse, ?_, by simpa using hkind, ?_⟩
    · rw [← List.reverse_inj, hall]
      simp
    · intro c hc
      simpa using hafter c (List.mem_reverse.mp hc)
  · rintro ⟨before, after, hall, hkind, hafter⟩
    refine ⟨by simpa using hkind, after.reverse, before.reverse, ?_, ?_⟩
    · rw [hall]
      simp
    · intro c hc
      simpa using hafter c (List.mem_reverse.mp hc)

theorem lastOfKind?_eq_none_iff {n : Node} :
    lastOfKind? "base_list" n = none ↔ ∀ c ∈ n.children, c.kind ≠ "base_list" := by
  simp [lastOfKind?]

section
variable {source : ByteArray}

theorem OwnText.beforeArguments_eq {e : Node} {own : String} (h : OwnText source e own) :
    beforeArguments (textOf source e) = beforeArguments own := by
  cases h with
  | plain => rfl
  | @call arguments _ _ _ htext hopen =>
    have hnone : (textOf source arguments).toList.takeWhile (· != '(') = [] := by
      cases hchars : (textOf source arguments).toList with
      | nil => rfl
      | cons c cs =>
        rw [hchars] at hopen
        cases hopen
        rfl
    unfold beforeArguments
    rw [htext, String.toList_append, List.takeWhile_append, hnone, List.append_nil]
    split
    · rename_i hfull
      rw [(List.takeWhile_prefix _).eq_of_length hfull]
    · rfl

theorem baseTypes_eq {list : Node} {owns : List String} (h : List.Forall₂ (OwnText source) (entries list) owns) :
    baseTypes source list = asBases (owns.map beforeArguments) := by
  have hentries : (list.namedChildren.filter fun c => c.kind != "argument_list" && !c.isComment) = entries list := by
    unfold Node.namedChildren entries
    rw [List.filter_filter]
    apply List.filter_congr
    intro c _
    rw [Bool.eq_iff_iff]
    simp [and_comm]
  have htexts : List.Forall₂ (· = ·) ((entries list).map fun c => Text.trim (beforeArguments (textOf source c)))
      (owns.map fun own => Text.trim (beforeArguments own)) := by
    rw [List.forall₂_map_left_iff, List.forall₂_map_right_iff]
    exact h.imp fun e own hown => congrArg Text.trim hown.beforeArguments_eq
  rw [List.forall₂_eq_eq_eq] at htexts
  unfold baseTypes asBases
  rw [hentries, htexts, List.map_map]
  rfl

theorem beforeArguments_eq_self {s : String} (h : '(' ∉ s.toList) : beforeArguments s = s := by
  unfold beforeArguments
  rw [List.takeWhile_eq_self_iff.mpr, String.ofList_toList]
  intro c hc
  have hne : c ≠ '(' := by
    rintro rfl
    exact h hc
  simpa using hne

theorem not_mem_beforeArguments (s : String) : '(' ∉ (beforeArguments s).toList := by
  unfold beforeArguments
  rw [String.toList_ofList]
  intro h
  simpa using List.mem_takeWhile_imp h

theorem asBases_eq_iff (owns : List String) :
    asBases (owns.map beforeArguments) = asBases owns ↔ ∀ own ∈ owns, '(' ∉ own.toList := by
  constructor
  · intro heq own hown hparen
    -- a parenthesis is not blank, so that it would be seen on the right, but on the left there is none
    have hmem := Text.mem_trim hparen (by decide)
    have hbase : Text.trim own ∈ asBases owns := by
      refine List.mem_filter.mpr ⟨List.mem_map_of_mem hown, ?_⟩
      rw [Bool.not_eq_true', ← Bool.not_eq_true, String.isEmpty_iff]
      intro hempty
      rw [hempty] at hmem
      cases hmem
    rw [← heq] at hbase
    obtain ⟨hbase, _⟩ := List.mem_filter.mp hbase
    rw [List.map_map] at hbase
    obtain ⟨other, _, hother⟩ := List.mem_map.mp hbase
    rw [← hother] at hmem
    exact not_mem_beforeArguments other (Text.mem_of_mem_trim hmem)
  · intro hall
    rw [List.map_congr_left fun own hown => beforeArguments_eq_self (hall own hown), List.map_id']

end

/-! ## Signatures -/

/-- What the base types of a declaration are, and its signature with them. -/
structure NamesBases (source : ByteArray) (n : Node) (d : Declaration) : Prop where
  bare : (∀ c ∈ n.children, c.kind ≠ "base_list") → d.baseTypes = []
  listed : ∀ list owns, IsBaseList n list → List.Forall₂ (OwnText source) (entries list) owns →
    d.baseTypes = asBases (owns.map beforeArguments) ∧
      (d.baseTypes = asBases owns ↔ ∀ own ∈ owns, '(' ∉ own.toList)
  signature : d.signature =
    if d.baseTypes = [] then d.heading else d.heading ++ " : " ++ ", ".intercalate d.baseTypes

theorem DrawnFrom.namesBases {source : ByteArray} {n : Node} {d : Declaration} (h : DrawnFrom source n d) :
    NamesBases source n d := by
  have hbases : d.baseTypes = ((lastOfKind? "base_list" n).map (baseTypes source)).getD [] := by
    rw [h.header]
    rfl
  refine ⟨?_, ?_, ?_⟩
  · intro hnone
    rw [hbases, lastOfKind?_eq_none_iff.mpr hnone]
    rfl
  · intro list owns hlist howns
    have hcut : d.baseTypes = asBases (owns.map beforeArguments) := by
      rw [hbases, lastOfKind?_eq_some_iff.mpr hlist]
      exact baseTypes_eq howns
    refine ⟨hcut, ?_⟩
    rw [hcut]
    exact asBases_eq_iff owns
  · unfold Declaration.signature
    simp only [List.isEmpty_iff]

/-- **Base types end at a parenthesis.** For each declaration in any tree, the base types are, in order, what the
entries of its base list say up to their first opening parenthesis, trimmed. They are all that the entries say, less
the arguments of constructor calls, just if no entry has a parenthesis elsewhere; the signature ends with them. -/
theorem base_types_kept_iff (source : ByteArray) (root : Node) :
    OneEach (TypePlace root) (fun _ => NamesBases source) (ofTree source root).declarations :=
  (declarations_oneEach source root).imp fun _ _ _ _ h => h.namesBases

/-- A class whose base type has a tuple among its type arguments. -/
def tupled : String := "class C : B<(int, string)> \x7b \x7d"

theorem tuple_argument_cut :
    ((ofSource tupled).declarations.map fun d => (d.baseTypes, d.signature)) = [(["B<"], "class C : B<")] ∧
      ∃ list ∈ ((parse tupled).construct? [0]).bind (lastOfKind? "base_list"),
        (entries list).map (textOf tupled.toUTF8) = ["B<(int, string)>"] ∧
          ∀ e ∈ entries list, ∀ c ∈ e.children, c.kind ≠ "argument_list" := by
  decide +kernel

end CodeCorpus.Outline
