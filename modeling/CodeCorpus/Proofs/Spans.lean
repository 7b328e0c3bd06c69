import CodeCorpus.Proofs.Places
import CodeCorpus.Text.Decoding
import Mathlib.Data.List.Infix
import Mathlib.Data.String.Basic

/-!
# Spans of source texts

A place of a source text is where some beginning of it ends (`IsPlace`), and its bytes and its column are those of
that beginning. Between two places stands a text of its own (`between`), and texts between places add up.
-/

namespace CodeCorpus.Syntax

/-! ## Places -/

def placeAfter (before : String) : Position := before.toList.foldl Position.after ⟨0, 0, 0⟩

/-- The bytes behind the last line feed. -/
def columnAfter (before : String) : Nat := String.utf8Len (before.toList.reverse.takeWhile (· != '\n'))

def IsPlace (source : String) (p : Position) : Prop := ∃ before after, source = before ++ after ∧ p = placeAfter before

theorem isPlace_default (source : String) : IsPlace source default := ⟨"", source, by simp, rfl⟩

theorem after_byte (p : Position) (c : Char) : (p.after c).byte = p.byte + c.utf8Size := by
  unfold Position.after
  split
  · rename_i h
    subst h
    rfl
  · rfl

theorem foldl_after_byte (cs : List Char) (p : Position) : (cs.foldl Position.after p).byte = p.byte + String.utf8Len cs := by
  induction cs generalizing p with
  | nil => rfl
  | cons c cs ih =>
    rw [List.foldl_cons, ih, after_byte, String.utf8Len_cons]
    omega

theorem placeAfter_byte (before : String) : (placeAfter before).byte = before.utf8ByteSize := by
  rw [placeAfter, foldl_after_byte, ← String.utf8ByteSize_ofList, String.ofList_toList]
  exact Nat.zero_add _

theorem foldl_after_column (cs : List Char) :
    (cs.foldl Position.after ⟨0, 0, 0⟩).column = String.utf8Len (cs.reverse.takeWhile (· != '\n')) := by
  induction cs using List.reverseRecOn with
  | nil => rfl
  | append_singleton cs c ih =>
    rw [List.foldl_append, List.foldl_cons, List.foldl_nil, List.reverse_append, List.reverse_singleton,
      List.singleton_append, List.takeWhile_cons, Position.after]
    by_cases h : c = '\n'
    · simp [h]
    · rw [if_neg h, if_pos (by simpa using h), String.utf8Len_cons, ← ih, Nat.add_comm]

theorem placeAfter_column (before : String) : (placeAfter before).column = columnAfter before :=
  foldl_after_column before.toList

theorem placeAfter_append (before : String) (cs : List Char) :
    placeAfter (before ++ String.ofList cs) = cs.foldl Position.after (placeAfter before) := by
  rw [placeAfter, String.toList_append, String.toList_ofList, List.foldl_append]
  rfl

/-! ## Texts between places -/

/-- The text between two places given in bytes. -/
def between (source : String) (start stop : Nat) : String := Text.decodeLossy (sliceBytes source start stop)

theorem sliceBytes_eq (before mid after : String) :
    sliceBytes (before ++ mid ++ after) before.utf8ByteSize (before ++ mid).utf8ByteSize = mid.toUTF8 := by
  unfold sliceBytes String.toUTF8
  rw [String.toByteArray_append, ← String.size_toByteArray, ← String.size_toByteArray,
    ByteArray.extract_append_size_left, String.toByteArray_append]
  exact ByteArray.extract_append_eq_right rfl ByteArray.size_append

theorem between_eq (before mid after : String) :
    between (before ++ mid ++ after) before.utf8ByteSize (before ++ mid).utf8ByteSize = mid := by
  apply Text.decodeLossy_of_decode?
  rw [sliceBytes_eq, Text.decode?_toUTF8]

/-- Of two beginnings of a text the shorter one is a beginning of the other. -/
theorem exists_append_of_size_le {source b b' a a' : String} (h : source = b ++ a) (h' : source = b' ++ a')
    (hle : b.utf8ByteSize ≤ b'.utf8ByteSize) : ∃ mid, b' = b ++ mid := by
  have hb : b.toList <+: source.toList := ⟨a.toList, by rw [h, String.toList_append]⟩
  have hb' : b'.toList <+: source.toList := ⟨a'.toList, by rw [h', String.toList_append]⟩
  rcases List.prefix_or_prefix_of_prefix hb hb' with ⟨mid, hmid⟩ | ⟨mid, hmid⟩
  · exact ⟨String.ofList mid, String.toList_injective (by rw [← hmid, String.toList_append, String.toList_ofList])⟩
  · -- the longer one is then no longer than the other
    have hbb : b = b' ++ String.ofList mid :=
      String.toList_injective (by rw [← hmid, String.toList_append, String.toList_ofList])
    have hsize : (String.ofList mid).utf8ByteSize = 0 := by
      rw [hbb, String.utf8ByteSize_append] at hle
      omega
    rw [String.utf8ByteSize_eq_zero_iff.mp hsize, String.append_empty] at hbb
    exact ⟨"", by rw [hbb, String.append_empty]⟩

theorem eq_of_placeAfter_eq {source b b' a a' : String} (h : source = b ++ a) (h' : source = b' ++ a')
    (heq : placeAfter b = placeAfter b') : b = b' := by
  have hsize : b.utf8ByteSize = b'.utf8ByteSize := by rw [← placeAfter_byte, ← placeAfter_byte, heq]
  obtain ⟨mid, rfl⟩ := exists_append_of_size_le h h' hsize.le
  rw [String.utf8ByteSize_append] at hsize
  rw [String.utf8ByteSize_eq_zero_iff.mp (by omega : mid.utf8ByteSize = 0), String.append_empty]

section
variable {source : String} {p q r : Position}

/-- A text stands between two places of another. -/
theorem IsPlace.between_eq (hp : IsPlace source p) (hq : IsPlace source q) (hle : p.byte ≤ q.byte) :
    ∃ before mid after, source = before ++ mid ++ after ∧ p = placeAfter before ∧ q = placeAfter (before ++ mid) ∧
      between source p.byte q.byte = mid := by
  obtain ⟨b, a, hb, rfl⟩ := hp
  obtain ⟨b', a', hb', rfl⟩ := hq
  rw [placeAfter_byte, placeAfter_byte] at hle
  obtain ⟨mid, rfl⟩ := exists_append_of_size_le hb hb' hle
  refine ⟨b, mid, a', hb', rfl, rfl, ?_⟩
  rw [placeAfter_byte, placeAfter_byte, hb']
  exact Syntax.between_eq b mid a'

theorem IsPlace.between_append (hp : IsPlace source p) (hq : IsPlace source q) (hr : IsPlace source r)
    (hpq : p.byte ≤ q.byte) (hqr : q.byte ≤ r.byte) :
    between source p.byte q.byte ++ between source q.byte r.byte = between source p.byte r.byte := by
  obtain ⟨b, mid, a, hsource, rfl, rfl, hmid⟩ := hp.between_eq hq hpq
  obtain ⟨b', mid', a', hsource', hb', rfl, hmid'⟩ := hq.between_eq hr hqr
  obtain rfl := eq_of_placeAfter_eq hsource (hsource'.trans String.append_assoc) hb'
  have hassoc : b ++ mid ++ mid' = b ++ (mid ++ mid') := String.append_assoc
  rw [hmid, hmid', placeAfter_byte, placeAfter_byte, hsource', hassoc]
  exact (Syntax.between_eq b (mid ++ mid') a').symm

end

/-! ## Trees -/

/-- All nodes in a tree stand between places of a text. -/
inductive Node.Placed (source : String) : Node → Prop where
  | mk {n : Node} (start : IsPlace source n.span.start) (stop : IsPlace source n.span.stop)
    (inside : ∀ c ∈ n.children, Node.Placed source c) : Node.Placed source n

namespace Node.Placed

variable {source : String} {n : Node}

theorem start (h : n.Placed source) : IsPlace source n.span.start := by
  cases h
  assumption

theorem stop (h : n.Placed source) : IsPlace source n.span.stop := by
  cases h
  assumption

theorem inside (h : n.Placed source) {c : Node} (hc : c ∈ n.children) : c.Placed source := by
  cases h with
  | mk _ _ inside => exact inside c hc

theorem construct? : ∀ {a : List Nat} {n m : Node}, n.Placed source → n.construct? a = some m → m.Placed source
  | [], _, _, h, ha => Option.some.inj ha ▸ h
  | i :: a, n, m, h, ha => by
    obtain ⟨c, hc, _, hm⟩ := construct?_cons.mp ha
    exact construct? (h.inside (List.mem_of_getElem? hc)) hm

end Node.Placed

end CodeCorpus.Syntax
