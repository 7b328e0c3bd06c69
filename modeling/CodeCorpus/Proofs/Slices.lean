import CodeCorpus.Proofs.Comments
import CodeCorpus.Proofs.Parsing

/-!
# Members as slices of the source

The text of a member is a slice of its source: the comments it takes along (`taken`), each with the gap behind it, and
the member. A member is no comment, so that taking comments along ends at the member before at the latest, and the
slices of one body stay apart (`members_sliced`).
-/

namespace CodeCorpus.Outline

open CodeCorpus.Syntax
open CodeCorpus.Syntax.Node (OneEach)

/-! ## The comments taken along -/

instance (a b : Node) : Decidable (Joins a b) := inferInstanceAs (Decidable (_ ∧ _))

/-- The comments that the text of a node takes along, nearest first, as the siblings before it are given. -/
def taken (first : Node) : List Node → List Node
  | [] => []
  | c :: before => if Joins c first ∧ trails c before = false then c :: taken c before else []

theorem taken_prefix (first : Node) (before : List Node) : taken first before <+: before := by
  fun_induction taken first before with
  | case1 => exact List.prefix_rfl
  | case2 first c before h ih => exact (List.prefix_cons_inj c).mpr ih
  | case3 => exact List.nil_prefix

theorem taken_chain (first : Node) (before : List Node) :
    (first :: taken first before).IsChain fun b a => Joins a b := by
  fun_induction taken first before with
  | case1 => exact .singleton _
  | case2 first c before h ih => exact List.isChain_cons_cons.mpr ⟨h.1, ih⟩
  | case3 => exact .singleton _

theorem leadingNode_eq (first : Node) (before : List Node) :
    leadingNode first before = (taken first before).reverse.headD first := by
  fun_induction taken first before with
  | case1 => rfl
  | case2 first c before h ih =>
    rw [leadingNode_joined h.1 h.2, ih]
    cases htaken : (taken c before).reverse <;> simp [htaken]
  | case3 first c before h => exact leadingNode_stopped h

theorem isComment_of_mem_taken {first c : Node} {before : List Node} (h : c ∈ taken first before) :
    c.isComment = true := by
  fun_induction taken first before with
  | case1 => cases h
  | case2 first d before hjoin ih =>
    rcases List.mem_cons.mp h with rfl | h
    · exact hjoin.1.1
    · exact ih h
  | case3 => cases h

theorem not_isComment_of_declaration {c : Node} {s : String} (h : c.kind = s ++ "_declaration") :
    c.isComment = false := by
  unfold Node.isComment Node.commentKind
  rw [h, beq_eq_false_iff_ne]
  intro heq
  have hlength := congrArg String.length heq
  rw [String.length_append] at hlength
  have hlong : "_declaration".length = 12 ∧ "comment".length = 7 := by decide
  omega

theorem not_isComment_of_belongs {c : Node} {k : DeclarationKind} (h : Belongs c k) : c.isComment = false := by
  cases k with
  | enumType => exact not_isComment_of_declaration (s := "enum_member") h
  | _ =>
    obtain ⟨s, hs⟩ := h
    exact not_isComment_of_declaration hs

/-! ## Slices -/

/-- Siblings at ascending bytes, none over another. -/
structure InOrder (ns : List Node) : Prop where
  forward : ∀ n ∈ ns, n.span.start.byte ≤ n.span.stop.byte
  ordered : ns.Pairwise fun a b => a.span.stop.byte ≤ b.span.start.byte

instance (ns : List Node) : Decidable (InOrder ns) :=
  decidable_of_iff ((∀ n ∈ ns, n.span.start.byte ≤ n.span.stop.byte) ∧
      ns.Pairwise fun a b => a.span.stop.byte ≤ b.span.start.byte)
    ⟨fun h => ⟨h.1, h.2⟩, fun h => ⟨h.forward, h.ordered⟩⟩

/-- A member with the comments it takes along and the siblings before them. -/
structure Slice where
  before : List Node
  comments : List Node
  member : Node

namespace Slice

def siblings (x : Slice) : List Node := x.before ++ x.comments ++ [x.member]

/-- The node that the slice starts with. -/
def first (x : Slice) : Node := x.comments.headD x.member

/-- The first slice ends before the second starts, and they have no sibling in common. -/
structure Apart (x y : Slice) : Prop where
  siblings : x.siblings <+: y.before
  byte : x.member.span.stop.byte ≤ y.first.span.start.byte

end Slice

def ownText (source : String) (n : Node) : String := between source n.span.start.byte n.span.stop.byte

/-- The texts of comments, each with the gap before what follows it, the member at last. -/
def leadText (source : String) : List Node → Node → String
  | [], _ => ""
  | c :: cs, n =>
    ownText source c ++ between source c.span.stop.byte (cs.headD n).span.start.byte ++ leadText source cs n

/-- A slice of the source holds the text of a member. -/
structure Holds (source : String) (k : DeclarationKind) (ns : List Node) (x : Slice) (m : Member) : Prop where
  siblings : x.siblings <+: ns
  belongs : x.member.named = true ∧ Belongs x.member k
  drawn : m = listed k (memberAt source.toUTF8 (x.before ++ x.comments).reverse x.member)
  /-- All that stand before the member are comments, and none is more than a row above the next. -/
  joined : (x.comments ++ [x.member]).IsChain Joins
  text : m.text = leadText source x.comments x.member ++ ownText source x.member
  exact : ∃ before after, source = before ++ m.text ++ after ∧ x.first.span.start = placeAfter before ∧
    x.member.span.stop = placeAfter (before ++ m.text) ∧ m.startColumn = columnAfter before

/-- The members are slices of the source, one after another. -/
def Sliced (source : String) (k : DeclarationKind) (ns : List Node) (ms : List Member) : Prop :=
  ∃ xs : List Slice, List.Forall₂ (Holds source k ns) xs ms ∧ xs.Pairwise Slice.Apart

/-! ## Texts -/

theorem InOrder.part {ms ns : List Node} (h : InOrder ns) (hs : ms <:+: ns) : InOrder ms :=
  ⟨fun n hn => h.forward n (hs.mem hn), h.ordered.sublist hs.sublist⟩

theorem InOrder.headD_start_le {cs : List Node} {n : Node} (h : InOrder (cs ++ [n])) :
    (cs.headD n).span.start.byte ≤ n.span.start.byte := by
  cases cs with
  | nil => exact Nat.le_refl _
  | cons c cs =>
    have hforward := h.forward c (by simp)
    have hordered := List.rel_of_pairwise_cons h.ordered (by simp : n ∈ cs ++ [n])
    exact hforward.trans hordered

theorem headD_mem (cs : List Node) (n : Node) : cs.headD n ∈ cs ++ [n] := by
  cases cs <;> simp

theorem between_self (source : String) (p : Nat) : between source p p = "" := by
  unfold between sliceBytes
  rw [ByteArray.extract_eq_empty_iff.mpr (by omega)]
  rfl

theorem leadText_eq {source : String} {cs : List Node} {n : Node} (hin : InOrder (cs ++ [n]))
    (hplaced : ∀ c ∈ cs ++ [n], c.Placed source) :
    leadText source cs n = between source (cs.headD n).span.start.byte n.span.start.byte := by
  induction cs with
  | nil => exact (between_self source _).symm
  | cons c cs ih =>
    have hc : c.Placed source := hplaced c (by simp)
    have hn : n.Placed source := hplaced n (by simp)
    have htail : ∀ d ∈ cs ++ [n], d.Placed source := fun d hd => hplaced d (List.mem_cons_of_mem c hd)
    have hd : (cs.headD n).Placed source := htail _ (headD_mem cs n)
    have hinside : InOrder (cs ++ [n]) := hin.part ⟨[c], [], by simp⟩
    have hself : c.span.start.byte ≤ c.span.stop.byte := hin.forward c (by simp)
    have hgap := List.rel_of_pairwise_cons hin.ordered (headD_mem cs n)
    rw [leadText, ih hinside htail, ownText, hc.start.between_append hc.stop hd.start hself hgap]
    exact hc.start.between_append hd.start hn.start (hself.trans hgap) hinside.headD_start_le

/-! ## The slices of a body -/

/-- The slice of the member at a place among siblings. -/
def sliceAt (ns : List Node) (i : Nat) (c : Node) : Slice :=
  let cs := (taken c (ns.take i).reverse).reverse
  ⟨ns.take (i - cs.length), cs, c⟩

section
variable {ns : List Node} {i : Nat} {c : Node}

theorem sliceAt_take (hc : ns[i]? = some c) : (sliceAt ns i c).before ++ (sliceAt ns i c).comments = ns.take i := by
  have hi : i < ns.length := (List.getElem?_eq_some_iff.mp hc).1
  have hsuffix : (taken c (ns.take i).reverse).reverse <:+ ns.take i := by
    rw [← List.reverse_prefix, List.reverse_reverse]
    exact taken_prefix c _
  have hsplit := List.suffix_iff_eq_append.mp hsuffix
  rw [List.length_take_of_le hi.le, List.take_take, Nat.min_eq_left (Nat.sub_le i _)] at hsplit
  exact hsplit

theorem sliceAt_siblings (hc : ns[i]? = some c) : (sliceAt ns i c).siblings = ns.take (i + 1) := by
  rw [Slice.siblings, sliceAt_take hc, take_add_one_of_getElem? hc]
  rfl

theorem isComment_of_mem_sliceAt {d : Node} (h : d ∈ (sliceAt ns i c).comments) : d.isComment = true :=
  isComment_of_mem_taken (List.mem_reverse.mp h)

theorem sliceAt_joined : ((sliceAt ns i c).comments ++ [c]).IsChain Joins := by
  have hchain := taken_chain c (ns.take i).reverse
  rw [← List.isChain_reverse] at hchain
  simpa [sliceAt] using hchain

/-- The comments that a member takes along do not go over another member. -/
theorem lt_sliceAt_before {i' : Nat} {c' : Node} (hc : ns[i]? = some c) (hc' : ns[i']? = some c')
    (hcomment : c.isComment = false) (hlt : i < i') : i < (sliceAt ns i' c').before.length := by
  by_contra hnot
  have hget : (ns.take i')[i]? = some c := by rw [List.getElem?_take_of_lt hlt, hc]
  rw [← sliceAt_take hc', List.getElem?_append_right (Nat.not_lt.mp hnot)] at hget
  rw [isComment_of_mem_sliceAt (List.mem_of_getElem? hget)] at hcomment
  cases hcomment

theorem sliceAt_apart {i' : Nat} {c' : Node} (hin : InOrder ns) (hc : ns[i]? = some c) (hc' : ns[i']? = some c')
    (hcomment : c.isComment = false) (hlt : i < i') : (sliceAt ns i c).Apart (sliceAt ns i' c') := by
  have hbefore := lt_sliceAt_before hc hc' hcomment hlt
  have hsiblings : (sliceAt ns i c).siblings <+: (sliceAt ns i' c').before := by
    rw [sliceAt_siblings hc]
    apply List.prefix_of_prefix_length_le (List.take_prefix _ ns) (List.take_prefix _ ns)
    exact (List.length_take_le _ _).trans hbefore
  refine ⟨hsiblings, ?_⟩
  have hmem : c ∈ (sliceAt ns i' c').before := hsiblings.mem (by simp [Slice.siblings, sliceAt])
  have hordered : (sliceAt ns i' c').siblings.Pairwise fun a b => a.span.stop.byte ≤ b.span.start.byte := by
    rw [sliceAt_siblings hc']
    exact hin.ordered.sublist (List.take_sublist _ _)
  rw [Slice.siblings, List.append_assoc, List.pairwise_append] at hordered
  exact hordered.2.2 c hmem _ (headD_mem _ _)

/-- The slice at a member holds its text. -/
theorem sliceAt_holds {source : String} {k : DeclarationKind} (hin : InOrder ns) (hplaced : ∀ n ∈ ns, n.Placed source)
    (hc : ns[i]? = some c) (hbelongs : c.named = true ∧ Belongs c k) :
    Holds source k ns (sliceAt ns i c) (listed k (memberAt source.toUTF8 (ns.take i).reverse c)) := by
  generalize hx : sliceAt ns i c = x
  have hmember : x.member = c := by rw [← hx]; rfl
  have hfirst : leadingNode c (ns.take i).reverse = x.first := by
    rw [← hx]
    exact leadingNode_eq c _
  have hpart : x.comments ++ [x.member] <:+: ns := by
    have hinitial : x.siblings <+: ns := by
      rw [← hx, sliceAt_siblings hc]
      exact List.take_prefix _ ns
    rw [Slice.siblings, List.append_assoc] at hinitial
    exact (List.suffix_append _ _).isInfix.trans hinitial.isInfix
  have hinside := hin.part hpart
  have hpieces : ∀ n ∈ x.comments ++ [x.member], n.Placed source := fun n hn => hplaced n (hpart.mem hn)
  have hstart := (hpieces _ (headD_mem _ _)).start
  have hlast := hpieces x.member (by simp)
  have hforward := hinside.forward x.member (by simp)
  have hle := hinside.headD_start_le
  have htext : (listed k (memberAt source.toUTF8 (ns.take i).reverse c)).text =
      between source x.first.span.start.byte x.member.span.stop.byte := by
    rw [listed_text, memberAt, hfirst, hmember]
    rfl
  obtain ⟨before, mid, after, hsource, hbefore, hafter, hmid⟩ := hstart.between_eq hlast.stop (hle.trans hforward)
  refine ⟨?_, ?_, ?_, ?_, ?_, ?_⟩
  · rw [← hx, sliceAt_siblings hc]
    exact List.take_prefix _ ns
  · rw [hmember]
    exact hbelongs
  · rw [← hx, sliceAt_take hc]
    rfl
  · rw [hmember, ← hx]
    exact sliceAt_joined
  · rw [htext, leadText_eq hinside hpieces]
    exact (hstart.between_append hlast.start hlast.stop hle hforward).symm
  · have hwhole : (listed k (memberAt source.toUTF8 (ns.take i).reverse c)).text = mid := htext.trans hmid
    rw [hwhole]
    refine ⟨before, after, hsource, hbefore, hafter, ?_⟩
    rw [listed_startColumn, memberAt, hfirst, ← placeAfter_column, ← hbefore]
    rfl

end

/-! ## Whole outlines -/

/-- The slices of members at ascending places, from the places. -/
theorem sliced_of_members {source : String} {k : DeclarationKind} {n body : Node} {j : Nat} {ms : List Member}
    (hbody : IsBody n j body) (hin : InOrder body.children) (hplaced : ∀ c ∈ body.children, c.Placed source)
    (hmembers : OneEach (MemberPlace k n) (MemberFrom source.toUTF8 k n) ms) : Sliced source k body.children ms := by
  obtain ⟨places, hsorted, hmem, hall⟩ := hmembers
  have hat : ∀ p ∈ places, ∃ i, p.1 = [j, i] ∧ body.children[i]? = some p.2 ∧ p.2.named = true ∧ Belongs p.2 k := by
    intro p hp
    obtain ⟨⟨j', i, body', hplace, hbody', hc⟩, hbelongs⟩ := (hmem p.1 p.2).mp hp
    obtain ⟨rfl, rfl⟩ := hbody.unique hbody'
    exact ⟨i, hplace, hc, hbelongs⟩
  refine ⟨places.map fun p => sliceAt body.children (p.1.getLast?.getD 0) p.2, ?_, ?_⟩
  · rw [List.forall₂_map_left_iff]
    have hplaces := (List.forall₂_and_left _ _).mpr ⟨hat, hall⟩
    apply hplaces.imp
    rintro p m ⟨⟨i, hp, hc, hbelongs⟩, ⟨j', i', body', hp', hbody', rfl⟩⟩
    obtain ⟨rfl, rfl⟩ := hbody.unique hbody'
    rw [hp] at hp'
    cases hp'
    rw [hp]
    exact sliceAt_holds hin hplaced hc hbelongs
  · rw [List.pairwise_map]
    apply hsorted.imp_of_mem
    intro p q hp hq hlt
    obtain ⟨i, hpi, hc, _, hbelongs⟩ := hat p hp
    obtain ⟨i', hqi, hc', _⟩ := hat q hq
    rw [hpi, hqi] at hlt ⊢
    have hii : i < i' := by
      rcases List.cons_lt_cons_iff.mp hlt with h | ⟨_, h⟩
      · exact absurd h (Nat.lt_irrefl j)
      · rcases List.cons_lt_cons_iff.mp h with h | ⟨_, h⟩
        · exact h
        · cases h
    exact sliceAt_apart hin hc hc' (not_isComment_of_belongs hbelongs) hii

/-- **The texts of members are slices of the source that stay apart.** In any tree that stands between places of a
source, as its own does, the members of a body with its siblings in order are slices one after another: each holds
the comments it takes along with the gaps behind them and then the member's own text, and starts at the column told. -/
theorem members_sliced (source : String) : (parse source).Placed source ∧ ∀ root : Node, root.Placed source →
    OneEach (TypePlace root) (fun _ n d => ∀ j body, IsBody n j body → InOrder body.children →
      Sliced source d.kind body.children d.members) (ofTree source.toUTF8 root).declarations := by
  refine ⟨parse_placed source, ?_⟩
  intro root hroot
  refine (declarations_oneEach source.toUTF8 root).imp ?_
  intro a n d hplace hdrawn j body hbody hin
  have hn := hroot.construct? hplace.1
  have hinside : ∀ c ∈ body.children, c.Placed source := by
    intro c hc
    have hchild : body ∈ n.children := by
      rcases hbody with h | ⟨_, h⟩
      · exact List.mem_of_getElem? h.1
      · exact List.mem_of_getElem? h.1
    exact (hn.inside hchild).inside hc
  exact sliced_of_members hbody hin hinside hdrawn.members

/-- A class with a comment at the start of its body, two members on one line and two comments above the last. -/
def commented : String := "class C\n\x7b // a\n    int x; int y;\n    /* b */\n    // c\n    int z;\n\x7d\n"

theorem members_sliced_commented : (∃ body ∈ ((parse commented).construct? [0]).bind bodyOf?, InOrder body.children) ∧
    ((ofSource commented).declarations.map fun d => d.members.map Member.text) =
      [["int x;", "int y;", "/* b */\n    // c\n    int z;"]] ∧
    OneEach (TypePlace (parse commented)) (fun _ n d => ∀ j body, IsBody n j body → InOrder body.children →
      Sliced commented d.kind body.children d.members) (ofSource commented).declarations :=
  ⟨by decide +kernel, by decide +kernel, (members_sliced commented).2 (parse commented) (members_sliced commented).1⟩

end CodeCorpus.Outline
