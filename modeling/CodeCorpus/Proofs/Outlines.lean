import CodeCorpus.Outline.Extraction
import CodeCorpus.Proofs.Places

/-!
# What outlines are drawn from

An outline holds one declaration for each type that its tree declares at any place, and each declaration one
member for each that stands directly in its own body, all in document order. Its usings are those of the file
and then those of the first namespace. Nothing is asked of the tree: a declaration is a construct of a
declaring kind, whatever stands around it.
-/

namespace CodeCorpus.Outline

open CodeCorpus.Syntax
open CodeCorpus.Syntax.Node (constructs constructsFrom siblings OneEach)

/-! ## Bodies -/

/-- The first of siblings for which something holds. -/
def IsFirst (p : Node → Prop) (ns : List Node) (j : Nat) (c : Node) : Prop :=
  ns[j]? = some c ∧ p c ∧ ∀ i < j, ∀ d, ns[i]? = some d → ¬ p d

def InBodyRole (c : Node) : Prop := c.role = some "body"

def IsBodyList (c : Node) : Prop :=
  c.named = true ∧ (c.kind = "declaration_list" ∨ c.kind = "enum_member_declaration_list")

/-- The body of a node, and which child it is: the first in that role, or else the first that is a list of
declarations. -/
def IsBody (n : Node) (j : Nat) (body : Node) : Prop :=
  IsFirst InBodyRole n.children j body ∨
    (∀ c ∈ n.children, ¬ InBodyRole c) ∧ IsFirst IsBodyList n.children j body

theorem find?_eq_some_iff_isFirst {f : Node → Bool} {p : Node → Prop} (hp : ∀ c, f c = true ↔ p c) {ns : List Node}
    {c : Node} : ns.find? f = some c ↔ ∃ j, IsFirst p ns j c := by
  rw [List.find?_eq_some_iff_getElem]
  constructor
  · rintro ⟨hc, j, hj, rfl, hbefore⟩
    refine ⟨j, List.getElem?_eq_getElem hj, (hp _).mp hc, ?_⟩
    intro i hi d hd
    obtain ⟨_, rfl⟩ := List.getElem?_eq_some_iff.mp hd
    rw [← hp]
    simpa using hbefore i hi
  · rintro ⟨j, hj, hc, hbefore⟩
    obtain ⟨hlt, rfl⟩ := List.getElem?_eq_some_iff.mp hj
    refine ⟨(hp _).mpr hc, j, hlt, rfl, ?_⟩
    intro i hi
    have hnot := hbefore i hi _ (List.getElem?_eq_getElem (by omega))
    rw [← hp] at hnot
    simpa using hnot

theorem IsFirst.unique {p : Node → Prop} {ns : List Node} {j j' : Nat} {c c' : Node} (h : IsFirst p ns j c)
    (h' : IsFirst p ns j' c') : j = j' ∧ c = c' := by
  obtain ⟨hj, hc, hbefore⟩ := h
  obtain ⟨hj', hc', hbefore'⟩ := h'
  rcases Nat.lt_trichotomy j j' with hlt | rfl | hlt
  · exact absurd hc (hbefore' j hlt c hj)
  · rw [hj] at hj'
    exact ⟨rfl, Option.some.inj hj'⟩
  · exact absurd hc' (hbefore j' hlt c' hj')

theorem inBodyRole_iff (c : Node) : (c.role == some "body") = true ↔ InBodyRole c := beq_iff_eq

theorem isBodyList_iff (c : Node) :
    decide (c.named = true ∧ (c.kind == "declaration_list" || c.kind == "enum_member_declaration_list") = true) =
      true ↔ IsBodyList c := by
  simp [IsBodyList]

theorem bodyOf?_eq_some_iff {n body : Node} : bodyOf? n = some body ↔ ∃ j, IsBody n j body := by
  unfold bodyOf? Node.childOf? Node.namedChildren
  rw [List.find?_filter, Option.or_eq_some_iff, find?_eq_some_iff_isFirst inBodyRole_iff,
    find?_eq_some_iff_isFirst isBodyList_iff, List.find?_eq_none]
  simp only [inBodyRole_iff, IsBody, exists_or, exists_and_left]

theorem IsBody.unique {n : Node} {j j' : Nat} {body body' : Node} (h : IsBody n j body) (h' : IsBody n j' body') :
    j = j' ∧ body = body' := by
  rcases h with h | ⟨hnone, h⟩
  · rcases h' with h' | ⟨hnone', _⟩
    · exact h.unique h'
    · exact absurd h.2.1 (hnone' body (List.mem_of_getElem? h.1))
  · rcases h' with h' | ⟨_, h'⟩
    · exact absurd h'.2.1 (hnone body' (List.mem_of_getElem? h'.1))
    · exact h.unique h'

/-! ## Members -/

/-- The places in the body of a node, from its own. -/
def InBody (n : Node) (b : List Nat) (c : Node) : Prop :=
  ∃ j i body, b = [j, i] ∧ IsBody n j body ∧ body.children[i]? = some c

/-- The nodes that are members in the body of a type: the values of an enumeration, or else all declarations. -/
def Belongs (c : Node) : DeclarationKind → Prop
  | .enumType => c.kind = "enum_member_declaration"
  | _ => ∃ s, c.kind = s ++ "_declaration"

def MemberPlace (k : DeclarationKind) (n : Node) (b : List Nat) (c : Node) : Prop :=
  InBody n b c ∧ c.named = true ∧ Belongs c k

/-- The member as it is listed: all members of an enumeration have a name. -/
def listed : DeclarationKind → Member → Member
  | .enumType, m => { m with name := some (m.name.getD "") }
  | _, m => m

/-- A member drawn from a node, with the siblings before it, which may give it comments. -/
def MemberFrom (source : ByteArray) (k : DeclarationKind) (n : Node) (b : List Nat) (c : Node) (m : Member) : Prop :=
  ∃ j i body, b = [j, i] ∧ IsBody n j body ∧ m = listed k (memberAt source (body.children.take i).reverse c)

def memberTest : DeclarationKind → Node → Bool
  | .enumType => isEnumMember
  | _ => isTypeMember

theorem endsWith_iff {s t : String} : s.endsWith t = true ↔ ∃ r, s = r ++ t := by
  rw [← String.endsWith_toSlice, String.Slice.endsWith_string_iff, String.copy_toSlice]
  constructor
  · rintro ⟨r, hr⟩
    refine ⟨String.ofList r, String.toList_injective ?_⟩
    rw [String.toList_append, String.toList_ofList, hr]
  · rintro ⟨r, rfl⟩
    exact ⟨r.toList, String.toList_append.symm⟩

theorem memberTest_iff {k : DeclarationKind} {c : Node} : memberTest k c = true ↔ Belongs c k := by
  cases k with
  | enumType => exact beq_iff_eq
  | _ => exact endsWith_iff

section
variable {source : ByteArray}

def member? (source : ByteArray) (f : Node → Bool) (ns : List Node) (x : Node × Nat) : Option Member :=
  if x.1.named && f x.1 then some (memberAt source (ns.take x.2).reverse x.1) else none

theorem membersFrom_eq (f : Node → Bool) : ∀ before ns : List Node, membersFrom source f before ns =
    (ns.zipIdx before.length).filterMap (member? source f (before.reverse ++ ns))
  | _, [] => rfl
  | before, n :: ns => by
    have ih := membersFrom_eq f (n :: before) ns
    rw [List.reverse_cons, List.append_assoc, List.singleton_append, List.length_cons] at ih
    rw [membersFrom, ih, List.zipIdx_cons]
    have htake : ((before.reverse ++ n :: ns).take before.length).reverse = before := by
      rw [List.take_left' (List.length_reverse), List.reverse_reverse]
    by_cases hn : (n.named && f n) = true
    · rw [if_pos hn, List.filterMap_cons_some]
      rw [member?, if_pos hn, htake]
    · rw [if_neg hn, List.filterMap_cons_none]
      rw [member?, if_neg hn]

theorem members_eq (k : DeclarationKind) (n : Node) : (declarationAt source k n).members =
    ((bodyOf? n).map fun body => (membersFrom source (memberTest k) [] body.children).map (listed k)).getD [] := by
  have htypes : typeMembers source n =
      ((bodyOf? n).map fun body => (membersFrom source isTypeMember [] body.children).map id).getD [] := by
    simp only [List.map_id]
    rfl
  cases k with
  | enumType =>
    show enumMembers source n = _
    unfold enumMembers
    cases bodyOf? n <;> rfl
  | _ => exact htypes

theorem members_oneEach (k : DeclarationKind) (n : Node) :
    OneEach (MemberPlace k n) (MemberFrom source k n) (declarationAt source k n).members := by
  rw [members_eq]
  cases hbody : bodyOf? n with
  | none =>
    apply OneEach.nil
    rintro b c ⟨⟨j, i, body, _, h, _⟩, _⟩
    rw [bodyOf?_eq_some_iff.mpr ⟨j, h⟩] at hbody
    cases hbody
  | some body =>
    obtain ⟨j, hj⟩ := bodyOf?_eq_some_iff.mp hbody
    have hmembers : ((some body).map fun body =>
        (membersFrom source (memberTest k) [] body.children).map (listed k)).getD [] =
          (siblings [j] body.children).filterMap fun p =>
            (member? source (memberTest k) body.children (p.2, p.1.getLast?.getD 0)).map (listed k) := by
      rw [Option.map_some, Option.getD_some, membersFrom_eq, List.map_filterMap, siblings, List.filterMap_map]
      simp
    rw [hmembers]
    apply Node.oneEach_filterMap (Node.siblings_sorted [j] body.children)
    · intro b c
      rw [Node.mem_siblings]
      constructor
      · rintro ⟨⟨j', i, body', rfl, h, hi⟩, hn, hc⟩
        obtain ⟨rfl, rfl⟩ := h.unique hj
        refine ⟨⟨i, rfl, hi⟩, ?_⟩
        simp [member?, hn, memberTest_iff.mpr hc]
      · rintro ⟨⟨i, rfl, hi⟩, hsome⟩
        have htest : c.named = true ∧ memberTest k c = true := by
          by_contra hnot
          simp [member?, hnot] at hsome
        exact ⟨⟨j, i, body, rfl, hj, hi⟩, htest.1, memberTest_iff.mp htest.2⟩
    · rintro b c m ⟨⟨j', i, body', rfl, h, _⟩, hn, hc⟩ hm
      obtain ⟨rfl, rfl⟩ := h.unique hj
      refine ⟨j', i, body', rfl, hj, ?_⟩
      simpa [member?, hn, memberTest_iff.mpr hc, eq_comm] using hm

/-! ## Declarations -/

def Declares (k : DeclarationKind) (n : Node) : Prop := n.kind = k.keyword ++ "_declaration"

theorem declarationKind?_eq_some_iff {s : String} {k : DeclarationKind} :
    declarationKind? s = some k ↔ s = k.keyword ++ "_declaration" := by
  constructor
  · intro h
    have hfound := List.find?_some h
    exact beq_iff_eq.mp hfound
  · rintro rfl
    cases k <;> decide

def TypePlace (root : Node) (a : List Nat) (n : Node) : Prop := root.construct? a = some n ∧ ∃ k, Declares k n

/-- A declaration drawn from a node: its header, and a member for each in its body. -/
structure DrawnFrom (source : ByteArray) (n : Node) (d : Declaration) : Prop where
  declares : Declares d.kind n
  header : d = { declarationAt source d.kind n with members := d.members }
  members : OneEach (MemberPlace d.kind n) (MemberFrom source d.kind n) d.members

def drawn? (source : ByteArray) (n : Node) : Option Declaration :=
  (declarationKind? n.kind).map fun k => declarationAt source k n

theorem drawn?_isSome_iff {n : Node} : (drawn? source n).isSome = true ↔ ∃ k, Declares k n := by
  rw [drawn?, Option.isSome_map, Option.isSome_iff_exists]
  exact exists_congr fun k => declarationKind?_eq_some_iff

theorem drawnFrom_of_drawn? {n : Node} {d : Declaration} (h : drawn? source n = some d) : DrawnFrom source n d := by
  obtain ⟨k, hk, rfl⟩ := Option.map_eq_some_iff.mp h
  exact ⟨declarationKind?_eq_some_iff.mp hk, rfl, members_oneEach k n⟩

mutual

theorem declarationsIn_eq : ∀ n : Node,
    declarationsIn source n = n.constructs.filterMap fun p => drawn? source p.2
  | ⟨kind, named, role, span, children⟩ => by
    have hinside := declarationsAmong_eq 0 children
    rw [constructs, List.filterMap_cons, ← hinside]
    unfold declarationsIn drawn?
    cases declarationKind? kind <;> rfl

theorem declarationsAmong_eq : ∀ (k : Nat) (ns : List Node),
    declarationsAmong source ns = (constructsFrom k ns).filterMap fun p => drawn? source p.2
  | _, [] => rfl
  | k, n :: ns => by
    have hrest := declarationsAmong_eq (k + 1) ns
    rw [declarationsAmong, constructsFrom]
    split
    · rw [List.filterMap_append, List.filterMap_map, ← hrest, declarationsIn_eq n]
      rfl
    · exact hrest

end

theorem declarations_oneEach (source : ByteArray) (root : Node) :
    OneEach (TypePlace root) (fun _ => DrawnFrom source) (declarationsIn source root) := by
  rw [declarationsIn_eq]
  apply Node.oneEach_filterMap root.constructs_sorted
  · intro a n
    rw [Node.mem_constructs, drawn?_isSome_iff]
    exact Iff.rfl
  · intro a n d _ h
    exact drawnFrom_of_drawn? h

/-! ## The first namespace -/

mutual

theorem firstNamespace?_eq : ∀ n : Node,
    firstNamespace? n = (n.constructs.find? fun p => isNamespace p.2.kind).map Prod.snd
  | ⟨kind, named, role, span, children⟩ => by
    rw [firstNamespace?, constructs, List.find?_cons, firstNamespaceAmong?_eq 0 children]
    cases isNamespace kind <;> rfl

theorem firstNamespaceAmong?_eq : ∀ (k : Nat) (ns : List Node),
    firstNamespaceAmong? ns = ((constructsFrom k ns).find? fun p => isNamespace p.2.kind).map Prod.snd
  | _, [] => rfl
  | k, n :: ns => by
    have hrest := firstNamespaceAmong?_eq (k + 1) ns
    rw [firstNamespaceAmong?, constructsFrom]
    split
    · rw [List.find?_append, List.find?_map, Option.map_or, Option.map_map, ← hrest, firstNamespace?_eq n]
      rfl
    · exact hrest

end

def OpensNamespace (n : Node) : Prop :=
  n.kind = "namespace_declaration" ∨ n.kind = "file_scoped_namespace_declaration"

theorem isNamespace_iff {n : Node} : isNamespace n.kind = true ↔ OpensNamespace n := by
  simp [isNamespace, OpensNamespace]

/-- The first namespace of a tree in document order, and its place. -/
def FirstNamespace (root : Node) (p : List Nat) (n : Node) : Prop :=
  root.construct? p = some n ∧ OpensNamespace n ∧ ∀ q m, root.construct? q = some m → OpensNamespace m → p ≤ q

theorem FirstNamespace.unique {root n m : Node} {p q : List Nat} (h : FirstNamespace root p n)
    (h' : FirstNamespace root q m) : p = q ∧ n = m := by
  obtain ⟨hp, hn, hle⟩ := h
  obtain ⟨hq, hm, hle'⟩ := h'
  obtain rfl := le_antisymm (hle q m hq hm) (hle' p n hp hn)
  rw [hp] at hq
  exact ⟨rfl, Option.some.inj hq⟩

theorem firstNamespace?_eq_some {root n : Node} (h : firstNamespace? root = some n) :
    ∃ p, FirstNamespace root p n := by
  rw [firstNamespace?_eq, Option.map_eq_some_iff] at h
  obtain ⟨⟨p, m⟩, hfind, rfl⟩ := h
  obtain ⟨hm, before, after, hall, hbefore⟩ := List.find?_eq_some_iff_append.mp hfind
  have hsorted := root.constructs_sorted
  rw [hall, List.pairwise_append, List.pairwise_cons] at hsorted
  refine ⟨p, root.mem_constructs.mp (by simp [hall]), isNamespace_iff.mp hm, ?_⟩
  intro q l hq hl
  have hmem := root.mem_constructs.mpr hq
  rw [hall, List.mem_append, List.mem_cons] at hmem
  rcases hmem with hmem | heq | hmem
  · have hnot := hbefore _ hmem
    rw [isNamespace_iff.mpr hl] at hnot
    cases hnot
  · cases heq
    exact le_rfl
  · exact (hsorted.2.1.1 _ hmem).le

theorem firstNamespace?_eq_none {root : Node} (h : firstNamespace? root = none) (p : List Nat) (n : Node) :
    ¬ FirstNamespace root p n := by
  rintro ⟨hp, hn, _⟩
  rw [firstNamespace?_eq, Option.map_eq_none_iff, List.find?_eq_none] at h
  exact h _ (root.mem_constructs.mpr hp) (isNamespace_iff.mpr hn)

/-! ## Usings -/

/-- Where the usings of a namespace stand: in its body, or right in it if it has none. -/
def IsScope (n : Node) (s : List Nat) (scope : Node) : Prop :=
  (∃ j, s = [j] ∧ IsFirst InBodyRole n.children j scope) ∨
    s = [] ∧ scope = n ∧ ∀ c ∈ n.children, ¬ InBodyRole c

/-- The places of the using directives right in the node at place `a`. -/
def UsingPlace (a : List Nat) (n : Node) (b : List Nat) (c : Node) : Prop :=
  (∃ i, b = a ++ [i] ∧ n.children[i]? = some c) ∧ c.named = true ∧ c.kind = "using_directive"

def InnerUsing (root : Node) (b : List Nat) (c : Node) : Prop :=
  ∃ p n s scope, FirstNamespace root p n ∧ IsScope n s scope ∧ UsingPlace (p ++ s) scope b c

theorem isScope_getD (n : Node) : ∃ s, IsScope n s ((n.childOf? "body").getD n) := by
  cases h : n.childOf? "body" with
  | some scope =>
    obtain ⟨j, hj⟩ := (find?_eq_some_iff_isFirst inBodyRole_iff).mp h
    exact ⟨[j], .inl ⟨j, rfl, hj⟩⟩
  | none =>
    refine ⟨[], .inr ⟨rfl, rfl, ?_⟩⟩
    intro c hc
    rw [← inBodyRole_iff]
    exact List.find?_eq_none.mp h c hc

theorem IsScope.unique {n scope scope' : Node} {s s' : List Nat} (h : IsScope n s scope)
    (h' : IsScope n s' scope') : s = s' ∧ scope = scope' := by
  rcases h with ⟨j, rfl, h⟩ | ⟨rfl, rfl, hnone⟩
  · rcases h' with ⟨j', rfl, h'⟩ | ⟨_, _, hnone'⟩
    · obtain ⟨rfl, rfl⟩ := h.unique h'
      exact ⟨rfl, rfl⟩
    · exact absurd h.2.1 (hnone' _ (List.mem_of_getElem? h.1))
  · rcases h' with ⟨j', rfl, h'⟩ | ⟨rfl, rfl, _⟩
    · exact absurd h'.2.1 (hnone _ (List.mem_of_getElem? h'.1))
    · exact ⟨rfl, rfl⟩

def using? (source : ByteArray) (c : Node) : Option String :=
  if c.named ∧ c.kind = "using_directive" then some (Text.trim (textOf source c)) else none

theorem usingsIn_oneEach (a : List Nat) (n : Node) :
    OneEach (UsingPlace a n) (fun _ c t => t = Text.trim (textOf source c)) (usingsIn source n) := by
  have heq : usingsIn source n = (siblings a n.children).filterMap (using? source ∘ Prod.snd) := by
    rw [← List.filterMap_map, Node.siblings_map_snd, usingsIn, Node.namedChildren, List.filter_filter,
      ← List.filterMap_eq_map, List.filterMap_filter]
    apply List.filterMap_congr
    intro c _
    simp [using?, and_comm]
  rw [heq]
  apply Node.oneEach_filterMap (Node.siblings_sorted a n.children)
  · intro b c
    rw [Node.mem_siblings]
    simp [UsingPlace, using?]
  · rintro b c t ⟨_, hc⟩ ht
    simpa [using?, hc, eq_comm] using ht

theorem innerUsings_oneEach (root : Node) :
    OneEach (InnerUsing root) (fun _ c t => t = Text.trim (textOf source c))
      (((firstNamespace? root).map fun n => usingsIn source ((n.childOf? "body").getD n)).getD []) := by
  cases h : firstNamespace? root with
  | none =>
    apply OneEach.nil
    rintro b c ⟨p, n, _, _, hp, _⟩
    exact firstNamespace?_eq_none h p n hp
  | some n =>
    obtain ⟨p, hp⟩ := firstNamespace?_eq_some h
    obtain ⟨s, hs⟩ := isScope_getD n
    have heq : InnerUsing root = UsingPlace (p ++ s) ((n.childOf? "body").getD n) := by
      funext b c
      apply propext
      constructor
      · rintro ⟨p', n', s', scope, hp', hs', hb⟩
        obtain ⟨rfl, rfl⟩ := hp'.unique hp
        obtain ⟨rfl, rfl⟩ := hs'.unique hs
        exact hb
      · intro hb
        exact ⟨p, n, s, _, hp, hs, hb⟩
    rw [heq]
    exact usingsIn_oneEach (p ++ s) _

theorem not_innerUsing {root c c' : Node} {b : List Nat} (hroot : ¬ OpensNamespace root)
    (h : UsingPlace [] root b c) : ¬ InnerUsing root b c' := by
  rintro ⟨p, n, s, scope, ⟨hp, hn, _⟩, _, ⟨i', hb', _⟩, _⟩
  obtain ⟨⟨i, hb, _⟩, _⟩ := h
  cases p with
  | nil =>
    cases hp
    exact hroot hn
  | cons j p =>
    rw [hb] at hb'
    have hlen := congrArg List.length hb'
    simp at hlen

end

/-! ## Whole outlines -/

/-- The places of listed members: that of the declaration, and from there. -/
def ListedAt (root : Node) (a b : List Nat) (c : Node) : Prop :=
  ∃ n k, root.construct? a = some n ∧ Declares k n ∧ MemberPlace k n b c

/-- No place is in the bodies of two declarations. -/
theorem ListedAt.inj {root c c' : Node} {a a' b b' : List Nat} (h : ListedAt root a b c)
    (h' : ListedAt root a' b' c') (heq : a ++ b = a' ++ b') : a = a' ∧ b = b' := by
  obtain ⟨_, _, _, _, ⟨j, i, _, rfl, _⟩, _⟩ := h
  obtain ⟨_, _, _, _, ⟨j', i', _, rfl, _⟩, _⟩ := h'
  exact List.append_inj' heq rfl

/-- A type in the body of another type is one of its members. -/
theorem TypePlace.listedAt {root n c : Node} {a b : List Nat} {k : DeclarationKind}
    (hn : root.construct? a = some n) (hk : Declares k n) (htype : k ≠ .enumType) (hb : InBody n b c)
    (hc : TypePlace root (a ++ b) c) : ListedAt root a b c := by
  obtain ⟨hplace, k', hk'⟩ := hc
  refine ⟨n, k, hn, hk, hb, ?_, ?_⟩
  · obtain ⟨j, i, body, rfl, _, _⟩ := hb
    obtain ⟨m, _, hm⟩ := Node.construct?_append.mp hplace
    obtain ⟨d, _, _, hd⟩ := Node.construct?_cons.mp hm
    obtain ⟨d', _, hnamed, hd'⟩ := Node.construct?_cons.mp hd
    cases hd'
    exact hnamed
  · cases k with
    | enumType => exact absurd rfl htype
    | _ => exact ⟨k'.keyword, hk'⟩

/-- **Nothing is lost and nothing repeated.** Of any tree the outline holds, in document order, one declaration for
each class, interface, struct or enumeration at any place, and this one member for each that stands directly in
its body. No place is listed for two declarations, and a type in the body of another is listed as its member too.
The usings are those of the file and then those of the first namespace, one for each. Where words and signs have
nothing inside them, a construct stands at the place of every named node. -/
theorem ofTree_complete (source : ByteArray) (root : Node) :
    OneEach (TypePlace root) (fun _ => DrawnFrom source) (ofTree source root).declarations ∧
      (∀ a a' b b' c c', ListedAt root a b c → ListedAt root a' b' c' → a ++ b = a' ++ b' → a = a' ∧ b = b') ∧
      (∀ a n k b c, root.construct? a = some n → Declares k n → k ≠ .enumType → InBody n b c →
        TypePlace root (a ++ b) c → ListedAt root a b c) ∧
      (∃ top inner, (ofTree source root).usings = top ++ inner ∧
        OneEach (UsingPlace [] root) (fun _ c t => t = Text.trim (textOf source c)) top ∧
        OneEach (InnerUsing root) (fun _ c t => t = Text.trim (textOf source c)) inner ∧
        (¬ OpensNamespace root → ∀ b c c', UsingPlace [] root b c → ¬ InnerUsing root b c')) ∧
      (root.Lexical → ∀ a n, root.at? a = some n → n.named = true → root.construct? a = some n) := by
  refine ⟨declarations_oneEach source root, ?_, ?_, ?_, ?_⟩
  · intro a a' b b' c c' h h' heq
    exact h.inj h' heq
  · intro a n k b c hn hk htype hb hc
    exact hc.listedAt hn hk htype hb
  · refine ⟨_, _, rfl, usingsIn_oneEach [] root, innerUsings_oneEach root, ?_⟩
    intro hroot b c c' hb
    exact not_innerUsing hroot hb
  · intro hlex a n ha hn
    exact hlex.construct? ha hn

end CodeCorpus.Outline
