import CodeCorpus.Syntax.Node
import Mathlib.Data.List.Forall2
import Mathlib.Data.List.Lex

/-!
# Places in syntax trees

A node has its place in a tree: the way down to it, at each step the number of a child. In the order of words
places are in document order, a node before what is inside it. The constructs of a tree are the nodes that are
reached through named nodes; they are listed here with their places (`constructs`), each once and in order, and
what is listed from them keeps this (`OneEach`).
-/

namespace CodeCorpus.Syntax

namespace Node

/-- The node at a place. -/
def at? : List Nat → Node → Option Node
  | [], n => some n
  | i :: a, n => n.children[i]?.bind (at? a)

/-- The node at a place, if named nodes lead there. -/
def construct? : List Nat → Node → Option Node
  | [], n => some n
  | i :: a, n => (n.children[i]?.filter Node.named).bind (construct? a)

mutual

def constructs : Node → List (List Nat × Node)
  | ⟨kind, named, role, span, children⟩ =>
    ([], ⟨kind, named, role, span, children⟩) :: constructsFrom 0 children

/-- The constructs in siblings, of which the first is child `k`. -/
def constructsFrom (k : Nat) : List Node → List (List Nat × Node)
  | [] => []
  | c :: cs =>
    if c.named then (constructs c).map (fun p => (k :: p.1, p.2)) ++ constructsFrom (k + 1) cs
    else constructsFrom (k + 1) cs

end

theorem construct?_cons {n m : Node} {i : Nat} {a : List Nat} :
    n.construct? (i :: a) = some m ↔
      ∃ c, n.children[i]? = some c ∧ c.named = true ∧ c.construct? a = some m := by
  simp [construct?, Option.bind_eq_some_iff, Option.filter_eq_some_iff, and_assoc]

/-! ## Each construct once, and in order -/

mutual

theorem mem_constructs : ∀ (n : Node) {a : List Nat} {m : Node}, (a, m) ∈ n.constructs ↔ n.construct? a = some m
  | ⟨kind, named, role, span, children⟩, a, m => by
    rw [constructs, List.mem_cons, mem_constructsFrom children]
    cases a with
    | nil =>
      constructor
      · rintro (h | ⟨i, b, c, h, _⟩)
        · cases h
          rfl
        · cases h
      · intro h
        cases h
        exact .inl rfl
    | cons i a =>
      rw [construct?_cons]
      constructor
      · rintro (h | ⟨j, b, c, h, hc⟩)
        · cases h
        · rw [Nat.zero_add] at h
          cases h
          exact ⟨c, hc⟩
      · rintro ⟨c, hc⟩
        exact .inr ⟨i, a, c, by rw [Nat.zero_add], hc⟩

theorem mem_constructsFrom : ∀ (cs : List Node) {k : Nat} {a : List Nat} {m : Node},
    (a, m) ∈ constructsFrom k cs ↔
      ∃ i b c, a = (k + i) :: b ∧ cs[i]? = some c ∧ c.named = true ∧ c.construct? b = some m
  | [], k, a, m => by simp [constructsFrom]
  | c :: cs, k, a, m => by
    have hrest : (a, m) ∈ constructsFrom (k + 1) cs ↔ ∃ i b d, a = (k + (i + 1)) :: b ∧ cs[i]? = some d ∧
        d.named = true ∧ d.construct? b = some m := by
      rw [mem_constructsFrom cs]
      simp only [Nat.add_assoc, Nat.add_comm 1]
    have hhead : (a, m) ∈ (constructs c).map (fun p => (k :: p.1, p.2)) ↔
        ∃ b, a = k :: b ∧ c.construct? b = some m := by
      constructor
      · intro h
        obtain ⟨⟨b, m'⟩, hp, h⟩ := List.mem_map.mp h
        cases h
        exact ⟨b, rfl, (mem_constructs c).mp hp⟩
      · rintro ⟨b, rfl, hb⟩
        exact List.mem_map.mpr ⟨(b, m), (mem_constructs c).mpr hb, rfl⟩
    constructor
    · intro h
      rw [constructsFrom] at h
      split at h
      · rename_i hn
        rcases List.mem_append.mp h with h | h
        · obtain ⟨b, ha, hb⟩ := hhead.mp h
          exact ⟨0, b, c, ha, rfl, hn, hb⟩
        · obtain ⟨i, b, d, ha, hd⟩ := hrest.mp h
          exact ⟨i + 1, b, d, ha, hd⟩
      · obtain ⟨i, b, d, ha, hd⟩ := hrest.mp h
        exact ⟨i + 1, b, d, ha, hd⟩
    · rintro ⟨i, b, d, ha, hd, hn, hb⟩
      rw [constructsFrom]
      cases i with
      | zero =>
        cases hd
        rw [if_pos hn]
        exact List.mem_append_left _ (hhead.mpr ⟨b, ha, hb⟩)
      | succ i =>
        have h := hrest.mpr ⟨i, b, d, ha, hd, hn, hb⟩
        split
        · exact List.mem_append_right _ h
        · exact h

end

theorem le_of_mem_constructsFrom {cs : List Node} {k : Nat} {p : List Nat × Node} (h : p ∈ constructsFrom k cs) :
    ∃ i b, k ≤ i ∧ p.1 = i :: b := by
  obtain ⟨i, b, _, ha, _⟩ := (mem_constructsFrom cs).mp h
  exact ⟨k + i, b, Nat.le_add_right k i, ha⟩

mutual

theorem constructs_sorted : ∀ n : Node, n.constructs.Pairwise fun p q => p.1 < q.1
  | ⟨kind, named, role, span, children⟩ => by
    rw [constructs, List.pairwise_cons]
    refine ⟨?_, constructsFrom_sorted 0 children⟩
    intro p hp
    obtain ⟨i, b, _, ha⟩ := le_of_mem_constructsFrom hp
    rw [ha]
    exact List.nil_lt_cons i b

theorem constructsFrom_sorted : ∀ (k : Nat) (cs : List Node), (constructsFrom k cs).Pairwise fun p q => p.1 < q.1
  | _, [] => .nil
  | k, c :: cs => by
    have hrest := constructsFrom_sorted (k + 1) cs
    rw [constructsFrom]
    split
    · rw [List.pairwise_append]
      refine ⟨?_, hrest, ?_⟩
      · rw [List.pairwise_map]
        exact (constructs_sorted c).imp fun h => List.cons_lt_cons_iff.mpr (.inr ⟨rfl, h⟩)
      · intro p hp q hq
        obtain ⟨r, _, rfl⟩ := List.mem_map.mp hp
        obtain ⟨i, b, hi, hb⟩ := le_of_mem_constructsFrom hq
        rw [hb]
        exact List.cons_lt_cons_iff.mpr (.inl hi)
    · exact hrest

end

/-! ## All named nodes of a tree -/

theorem construct?_append : ∀ {a b : List Nat} {n c : Node},
    n.construct? (a ++ b) = some c ↔ ∃ m, n.construct? a = some m ∧ m.construct? b = some c
  | [], b, n, c => by simp [construct?]
  | i :: a, b, n, c => by
    rw [List.cons_append, construct?_cons]
    constructor
    · rintro ⟨d, hd, hn, h⟩
      obtain ⟨m, hm, hc⟩ := construct?_append.mp h
      exact ⟨m, construct?_cons.mpr ⟨d, hd, hn, hm⟩, hc⟩
    · rintro ⟨m, h, hc⟩
      obtain ⟨d, hd, hn, hm⟩ := construct?_cons.mp h
      exact ⟨d, hd, hn, construct?_append.mpr ⟨m, hm, hc⟩⟩

/-- Words and signs have nothing inside them. -/
def Lexical (root : Node) : Prop := ∀ a n, root.at? a = some n → n.named = false → n.children = []

/-- Where words and signs have nothing inside them, every named node is a construct. -/
theorem Lexical.construct? : ∀ {a : List Nat} {root n : Node}, root.Lexical → root.at? a = some n →
    n.named = true → root.construct? a = some n
  | [], _, _, _, h, _ => h
  | i :: a, root, n, hlex, h, hn => by
    obtain ⟨c, hc, ha⟩ := Option.bind_eq_some_iff.mp h
    have hbelow : c.Lexical := by
      intro b m hb
      refine hlex (i :: b) m ?_
      rw [at?, hc]
      exact hb
    cases hnamed : c.named with
    | true => exact construct?_cons.mpr ⟨c, hc, hnamed, hbelow.construct? ha hn⟩
    | false =>
      have hleaf := hbelow [] c rfl hnamed
      cases a with
      | nil =>
        cases ha
        rw [hn] at hnamed
        cases hnamed
      | cons j a => simp [at?, hleaf] at ha

/-! ## Lists drawn from a tree -/

/-- Something for each node at a place, one for each and in document order. -/
def OneEach {α : Type} (P : List Nat → Node → Prop) (R : List Nat → Node → α → Prop) (xs : List α) : Prop :=
  ∃ places : List (List Nat × Node), (places.Pairwise fun p q => p.1 < q.1) ∧ (∀ a n, (a, n) ∈ places ↔ P a n) ∧
    List.Forall₂ (fun p x => R p.1 p.2 x) places xs

section
variable {α : Type}

theorem forall₂_filterMap {β : Type} (f : β → Option α) :
    ∀ l : List β, List.Forall₂ (fun b x => f b = some x) (l.filter fun b => (f b).isSome) (l.filterMap f)
  | [] => .nil
  | b :: l => by
    have ih := forall₂_filterMap f l
    cases hb : f b with
    | none =>
      rw [List.filter_cons_of_neg (by simp [hb]), List.filterMap_cons_none hb]
      exact ih
    | some x =>
      rw [List.filter_cons_of_pos (by rw [hb]; rfl), List.filterMap_cons_some hb]
      exact .cons hb ih

theorem oneEach_filterMap {places : List (List Nat × Node)} (hsorted : places.Pairwise fun p q => p.1 < q.1)
    {P : List Nat → Node → Prop} {R : List Nat → Node → α → Prop} {f : List Nat × Node → Option α}
    (hP : ∀ a n, P a n ↔ (a, n) ∈ places ∧ (f (a, n)).isSome)
    (hR : ∀ a n x, P a n → f (a, n) = some x → R a n x) : OneEach P R (places.filterMap f) := by
  have hmem : ∀ a n, (a, n) ∈ places.filter (fun p => (f p).isSome) ↔ P a n := by
    intro a n
    rw [List.mem_filter, hP]
  refine ⟨places.filter fun p => (f p).isSome, hsorted.filter _, hmem, ?_⟩
  have hall := (List.forall₂_and_left _ _).mpr ⟨fun p hp => (hmem p.1 p.2).mp hp, forall₂_filterMap f places⟩
  exact hall.imp fun p x h => hR p.1 p.2 x h.1 h.2

theorem OneEach.nil {P : List Nat → Node → Prop} {R : List Nat → Node → α → Prop} (h : ∀ a n, ¬ P a n) :
    OneEach P R [] := ⟨[], .nil, fun a n => iff_of_false List.not_mem_nil (h a n), .nil⟩

theorem OneEach.imp {P : List Nat → Node → Prop} {R R' : List Nat → Node → α → Prop} {xs : List α}
    (h : OneEach P R xs) (hR : ∀ a n x, P a n → R a n x → R' a n x) : OneEach P R' xs := by
  obtain ⟨places, hsorted, hmem, hall⟩ := h
  refine ⟨places, hsorted, hmem, ?_⟩
  have hplaced := (List.forall₂_and_left _ _).mpr ⟨fun p hp => (hmem p.1 p.2).mp hp, hall⟩
  exact hplaced.imp fun p x hp => hR p.1 p.2 x hp.1 hp.2

/-- Siblings with their places, given the place of their parent. -/
def siblings (a : List Nat) (ns : List Node) : List (List Nat × Node) := ns.zipIdx.map fun x => (a ++ [x.2], x.1)

theorem mem_siblings {a b : List Nat} {ns : List Node} {c : Node} :
    (b, c) ∈ siblings a ns ↔ ∃ i, b = a ++ [i] ∧ ns[i]? = some c := by
  constructor
  · intro h
    obtain ⟨⟨d, i⟩, hd, h⟩ := List.mem_map.mp h
    cases h
    exact ⟨i, rfl, List.mem_zipIdx_iff_getElem?.mp hd⟩
  · rintro ⟨i, rfl, hi⟩
    exact List.mem_map.mpr ⟨(c, i), List.mem_zipIdx_iff_getElem?.mpr hi, rfl⟩

theorem siblings_map_snd (a : List Nat) (ns : List Node) : (siblings a ns).map Prod.snd = ns := by
  rw [siblings, List.map_map]
  exact List.zipIdx_map_fst 0 ns

theorem siblings_sorted (a : List Nat) (ns : List Node) : (siblings a ns).Pairwise fun p q => p.1 < q.1 := by
  have hidx : ns.zipIdx.Pairwise fun x y => x.2 < y.2 := by
    rw [← List.pairwise_map (f := Prod.snd) (R := (· < ·)), List.zipIdx_map_snd]
    exact List.pairwise_lt_range'
  unfold siblings
  rw [List.pairwise_map]
  apply hidx.imp
  intro x y h
  exact List.append_left_lt (List.cons_lt_cons_iff.mpr (.inl h))

end

end Node

end CodeCorpus.Syntax
