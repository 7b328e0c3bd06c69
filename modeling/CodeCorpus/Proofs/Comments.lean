import CodeCorpus.Proofs.Outlines
import Mathlib.Data.List.Chain

/-!
# Comments behind other things

A comment on the row on which something else ends is about that and not about the member below it. The text of a
member leaves out the first comment there, but not those behind it: they go along with the member if they reach
down to it (`trailing_taken_iff`).
-/

namespace CodeCorpus.Outline

open CodeCorpus.Syntax
open CodeCorpus.Syntax.Node (OneEach)

/-! ## Siblings in order -/

/-- The first node stops before the second starts. -/
structure Precedes (a b : Node) : Prop where
  byte : a.span.stop.byte ≤ b.span.start.byte
  row : a.span.stop.row ≤ b.span.start.row

structure Forward (n : Node) : Prop where
  byte : n.span.start.byte ≤ n.span.stop.byte
  row : n.span.start.row ≤ n.span.stop.row
  comment : n.isComment = true → n.span.start.byte < n.span.stop.byte

/-- Siblings at ascending places, none over another. -/
structure Ascending (ns : List Node) : Prop where
  forward : ∀ n ∈ ns, Forward n
  ordered : ns.Pairwise Precedes

instance (a b : Node) : Decidable (Precedes a b) :=
  decidable_of_iff (a.span.stop.byte ≤ b.span.start.byte ∧ a.span.stop.row ≤ b.span.start.row)
    ⟨fun h => ⟨h.1, h.2⟩, fun h => ⟨h.byte, h.row⟩⟩

instance (n : Node) : Decidable (Forward n) :=
  decidable_of_iff (n.span.start.byte ≤ n.span.stop.byte ∧ n.span.start.row ≤ n.span.stop.row ∧
      (n.isComment = true → n.span.start.byte < n.span.stop.byte))
    ⟨fun h => ⟨h.1, h.2.1, h.2.2⟩, fun h => ⟨h.byte, h.row, h.comment⟩⟩

instance (ns : List Node) : Decidable (Ascending ns) :=
  decidable_of_iff ((∀ n ∈ ns, Forward n) ∧ ns.Pairwise Precedes)
    ⟨fun h => ⟨h.1, h.2⟩, fun h => ⟨h.forward, h.ordered⟩⟩

/-- The same for siblings given nearest first. -/
structure Descending (ns : List Node) : Prop where
  forward : ∀ n ∈ ns, Forward n
  ordered : ns.Pairwise fun b a => Precedes a b

theorem Ascending.descending {ns : List Node} (h : Ascending ns) : Descending ns.reverse :=
  ⟨fun n hn => h.forward n (List.mem_reverse.mp hn), List.pairwise_reverse.mpr h.ordered⟩

theorem Descending.suffix {ms ns : List Node} (h : Descending ns) (hs : ms <:+ ns) : Descending ms :=
  ⟨fun n hn => h.forward n (hs.mem hn), h.ordered.sublist hs.sublist⟩

theorem Descending.tail {n : Node} {ns : List Node} (h : Descending (n :: ns)) : Descending ns :=
  h.suffix (List.suffix_cons n ns)

theorem Descending.start_le {n m : Node} {ns : List Node} (h : Descending (n :: ns)) (hm : m ∈ ns) :
    m.span.start.byte ≤ n.span.start.byte := by
  have hforward := (h.forward m (List.mem_cons_of_mem n hm)).byte
  have hprecedes := (List.rel_of_pairwise_cons h.ordered hm).byte
  omega

theorem Descending.comment_lt {n c : Node} {ns : List Node} (h : Descending (n :: ns)) (hc : c ∈ ns)
    (hcomment : c.isComment = true) : c.span.start.byte < n.span.start.byte := by
  have hforward := (h.forward c (List.mem_cons_of_mem n hc)).comment hcomment
  have hprecedes := (List.rel_of_pairwise_cons h.ordered hc).byte
  omega

theorem leadingNode_start_le (first : Node) (before : List Node) (h : Descending (first :: before)) :
    (leadingNode first before).span.start.byte ≤ first.span.start.byte := by
  fun_induction leadingNode first before with
  | case1 => exact Nat.le_refl _
  | case2 => exact Nat.le_refl _
  | case3 => exact Nat.le_refl _
  | case4 => exact Nat.le_refl _
  | case5 first sibling before _ _ _ ih =>
    exact (ih h.tail).trans (h.start_le List.mem_cons_self)

theorem leadingNode_mem (first : Node) (before : List Node) : leadingNode first before ∈ first :: before := by
  fun_induction leadingNode first before with
  | case1 => exact List.mem_cons_self
  | case2 => exact List.mem_cons_self
  | case3 => exact List.mem_cons_self
  | case4 => exact List.mem_cons_self
  | case5 first sibling before _ _ _ ih => exact List.mem_cons_of_mem first ih

/-! ## Comments that go along -/

/-- A comment with the next sibling at most a row below it. -/
def Joins (a b : Node) : Prop := a.isComment = true ∧ b.span.start.row ≤ a.span.stop.row + 1

theorem leadingNode_joined {first c : Node} {before : List Node} (h : Joins c first) (ht : trails c before = false) :
    leadingNode first (c :: before) = leadingNode c before := by
  obtain ⟨hc, hrow⟩ := h
  simp [leadingNode, hc, ht, Nat.not_lt.mpr hrow]

theorem leadingNode_stopped {first c : Node} {before : List Node}
    (h : ¬ (Joins c first ∧ trails c before = false)) : leadingNode first (c :: before) = first := by
  rw [leadingNode]
  split
  · rfl
  · rename_i hc
    split
    · rfl
    · rename_i hrow
      have ht : trails c before = true := by
        by_contra ht
        exact h ⟨⟨by simpa using hc, Nat.not_lt.mp hrow⟩, by simpa using ht⟩
      rw [if_pos ht]

theorem trails_comment {c d : Node} {before : List Node} (hd : d.isComment = true) :
    trails c (d :: before) = false := by
  simp [trails, hd]

/-- The text of a member goes up to a comment before it if only comments stand between them, no two of them more
than a row apart, and the comment is not directly behind something else on its row. -/
theorem leadingNode_le_iff {c : Node} (hc : c.isComment = true) (far near : List Node) (first : Node)
    (h : Descending (first :: (near ++ c :: far))) :
    (leadingNode first (near ++ c :: far)).span.start.byte ≤ c.span.start.byte ↔
      (first :: (near ++ [c])).IsChain (fun b a => Joins a b) ∧ trails c far = false := by
  have hlt : ¬ first.span.start.byte ≤ c.span.start.byte := Nat.not_le.mpr (h.comment_lt (by simp) hc)
  induction near generalizing first with
  | nil =>
    rw [List.nil_append, List.nil_append, List.isChain_cons_cons]
    by_cases hjoin : Joins c first ∧ trails c far = false
    · rw [leadingNode_joined hjoin.1 hjoin.2]
      exact iff_of_true (leadingNode_start_le c far h.tail) ⟨⟨hjoin.1, .singleton c⟩, hjoin.2⟩
    · rw [leadingNode_stopped hjoin]
      exact iff_of_false hlt fun hall => hjoin ⟨hall.1.1, hall.2⟩
  | cons x near ih =>
    rw [List.cons_append, List.cons_append, List.isChain_cons_cons]
    by_cases hjoin : Joins x first ∧ trails x (near ++ c :: far) = false
    · have hx : ¬ x.span.start.byte ≤ c.span.start.byte := Nat.not_le.mpr (h.tail.comment_lt (by simp) hc)
      rw [leadingNode_joined hjoin.1 hjoin.2]
      refine (ih x h.tail hx).trans ?_
      simp [hjoin.1]
    · rw [leadingNode_stopped hjoin]
      refine iff_of_false hlt ?_
      rintro ⟨⟨hx, hchain⟩, _⟩
      refine hjoin ⟨hx, ?_⟩
      -- what stands before `x` is a comment, be it `c` or another
      cases near with
      | nil => exact trails_comment hc
      | cons y near =>
        rw [List.cons_append, List.isChain_cons_cons] at hchain
        exact trails_comment hchain.1.1

/-! ## Comments on the row of something else -/

/-- A comment on the row on which something before it ends. -/
def Trailing (before : List Node) (c : Node) : Prop :=
  c.isComment = true ∧ ∃ b ∈ before, b.isComment = false ∧ b.span.stop.row = c.span.start.row

instance (before : List Node) (c : Node) : Decidable (Trailing before c) :=
  inferInstanceAs (Decidable (c.isComment = true ∧ ∃ b ∈ before, b.isComment = false ∧ b.span.stop.row = c.span.start.row))

theorem trails_eq_false_iff {c : Node} {before : List Node} (h : Descending (c :: before))
    (ht : Trailing before c) : trails c before = false ↔ ∃ d, before.head? = some d ∧ d.isComment = true := by
  obtain ⟨_, b, hb, hother, hrow⟩ := ht
  cases before with
  | nil => cases hb
  | cons d before =>
    cases hd : d.isComment with
    | true => exact iff_of_true (trails_comment hd) ⟨d, rfl, hd⟩
    | false =>
      -- `d` ends between where `b` ends and where `c` starts, which is on one row
      have hsame : d.span.stop.row = c.span.start.row := by
        have hdc := (List.rel_of_pairwise_cons h.ordered List.mem_cons_self).row
        rcases List.mem_cons.mp hb with rfl | hmem
        · exact hrow
        · have hbd := (List.rel_of_pairwise_cons h.tail.ordered hmem).row
          have hforward := (h.forward d (by simp)).row
          omega
      refine iff_of_false ?_ ?_
      · simp [trails, hd, hsame]
      · rintro ⟨_, ⟨⟩, hcomment⟩
        rw [hd] at hcomment
        cases hcomment

/-- The text from the start of one sibling to the end of another holds a third. -/
def Covers (first last c : Node) : Prop :=
  first.span.start.byte ≤ c.span.start.byte ∧ c.span.stop.byte ≤ last.span.stop.byte

instance (first last c : Node) : Decidable (Covers first last c) :=
  inferInstanceAs (Decidable (_ ∧ _))

/-- The comments from `c` on reach down to `last`, and another comment stands right before them. -/
def Carried (before : List Node) (c : Node) (between : List Node) (last : Node) : Prop :=
  (∃ d, before.getLast? = some d ∧ d.isComment = true) ∧ (c :: between ++ [last]).IsChain Joins

/-- Of the comments on the row on which something else ends, the text of the member at `b` holds just those that
are carried along. -/
def TakesCarried (source : ByteArray) (n : Node) (b : List Nat) (c : Node) (m : Member) : Prop :=
  ∃ j i body first, b = [j, i] ∧ IsBody n j body ∧ body.children[i]? = some c ∧
    m.text = Text.decodeLossy (source.extract first.span.start.byte c.span.stop.byte) ∧
    m.startColumn = first.span.start.column ∧ first ∈ body.children.take (i + 1) ∧
    (Ascending body.children → ∀ before comment between, body.children.take i = before ++ comment :: between →
      Trailing before comment → (Covers first c comment ↔ Carried before comment between c))

theorem take_add_one_of_getElem? {ns : List Node} {c : Node} {i : Nat} (hc : ns[i]? = some c) :
    ns.take (i + 1) = ns.take i ++ [c] := by
  rw [List.take_add_one, hc]
  rfl

theorem Ascending.descending_take {ns : List Node} {c : Node} {i : Nat} (h : Ascending ns) (hc : ns[i]? = some c) :
    Descending (c :: (ns.take i).reverse) := by
  have hpart : Ascending (ns.take (i + 1)) :=
    ⟨fun n hn => h.forward n (List.mem_of_mem_take hn), h.ordered.sublist (List.take_sublist (i + 1) ns)⟩
  have hreverse := hpart.descending
  rwa [take_add_one_of_getElem? hc, List.reverse_append] at hreverse

theorem covers_iff_carried {ns before between : List Node} {comment c : Node} {i : Nat} (h : Ascending ns)
    (hc : ns[i]? = some c) (htake : ns.take i = before ++ comment :: between) (ht : Trailing before comment) :
    Covers (leadingNode c (ns.take i).reverse) c comment ↔ Carried before comment between c := by
  have hdesc := h.descending_take hc
  have hreverse : (ns.take i).reverse = between.reverse ++ comment :: before.reverse := by
    rw [htake, List.reverse_append, List.reverse_cons, List.append_assoc]
    rfl
  rw [hreverse] at hdesc ⊢
  have hbehind : Descending (comment :: before.reverse) := hdesc.suffix ⟨c :: between.reverse, by simp⟩
  have htrailing : Trailing before.reverse comment := by
    obtain ⟨hcomment, b, hb, hrow⟩ := ht
    exact ⟨hcomment, b, List.mem_reverse.mpr hb, hrow⟩
  have hstop : comment.span.stop.byte ≤ c.span.stop.byte := by
    have hmem : comment ∈ between.reverse ++ comment :: before.reverse := by simp
    have hprecedes := (List.rel_of_pairwise_cons hdesc.ordered hmem).byte
    have hforward := (hdesc.forward c List.mem_cons_self).byte
    omega
  have hchain : (c :: (between.reverse ++ [comment])).IsChain (fun b a => Joins a b) ↔
      (comment :: between ++ [c]).IsChain Joins := by
    rw [← List.isChain_reverse]
    simp
  unfold Covers Carried
  rw [leadingNode_le_iff ht.1 _ _ _ hdesc, trails_eq_false_iff hbehind htrailing, hchain, List.head?_reverse]
  simp only [hstop, and_true]
  exact and_comm

theorem listed_text (k : DeclarationKind) (m : Member) : (listed k m).text = m.text := by
  cases k <;> rfl

theorem listed_startColumn (k : DeclarationKind) (m : Member) : (listed k m).startColumn = m.startColumn := by
  cases k <;> rfl

theorem takesCarried_of_memberFrom {source : ByteArray} {k : DeclarationKind} {n c : Node} {b : List Nat} {m : Member}
    (hplace : MemberPlace k n b c) (h : MemberFrom source k n b c m) : TakesCarried source n b c m := by
  obtain ⟨j, i, body, rfl, hbody, rfl⟩ := h
  obtain ⟨⟨j', i', body', hb, hbody', hc⟩, _⟩ := hplace
  cases hb
  obtain ⟨_, rfl⟩ := hbody.unique hbody'
  refine ⟨j, i, body, leadingNode c (body.children.take i).reverse, rfl, hbody, hc, ?_, ?_, ?_, ?_⟩
  · simp only [listed_text, memberAt]
  · simp only [listed_startColumn, memberAt]
  · have hmem := leadingNode_mem c (body.children.take i).reverse
    rw [take_add_one_of_getElem? hc]
    simpa [or_comm] using hmem
  · intro hascending before comment between htake ht
    exact covers_iff_carried hascending hc htake ht

/-- **Of the comments behind other things the first stays where it is.** In any tree, the text of a member of a
type or enumeration holds a comment that starts on the row on which something before it in the body ends just if
another comment stands right before that one and nothing but comments, none more than a row above the next, between
it and the member. -/
theorem trailing_taken_iff (source : ByteArray) (root : Node) :
    OneEach (TypePlace root) (fun _ n d => OneEach (MemberPlace d.kind n) (TakesCarried source n) d.members)
      (ofTree source root).declarations := by
  refine (declarations_oneEach source root).imp ?_
  intro _ n d _ hdrawn
  exact hdrawn.members.imp fun b c m hplace hm => takesCarried_of_memberFrom hplace hm

/-- A class with two comments behind its first field. -/
def twoBehind : String := "class C\n\x7b\n    int y; /* a */ /* b */\n    int x;\n\x7d\n"

theorem second_comment_moves :
    ((ofSource twoBehind).declarations.map fun d => d.members.map Member.text) = [["int y;", "/* b */\n    int x;"]] ∧
      ∃ body ∈ ((parse twoBehind).construct? [0]).bind bodyOf?, Ascending body.children ∧
        ∃ comment ∈ body.children[3]?, ∃ c ∈ body.children[4]?, Trailing (body.children.take 3) comment ∧
          Covers (leadingNode c (body.children.take 4).reverse) c comment := by
  decide +kernel

end CodeCorpus.Outline
