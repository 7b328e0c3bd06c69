import CodeCorpus.Proofs.Memory
import CodeCorpus.Proofs.Tables
import Mathlib.Data.List.Forall2

/-!
# A store in memory and one in tables agree

Both stores do to their records what a few list operations say (`Call.effect`), and answer what is read off the
records (`Call.answer`). So, called in the same way from the start on, they give the same answers. Records may come
in another order, and a fault may stand under other messages.
-/

namespace CodeCorpus

/-- A call of a store, without a limit on what is read. -/
inductive Call where
  | prepare (width : Nat)
  | documents (filter : DocumentFilter)
  | putDocuments (docs : List Document)
  | removeDocuments (ids : List Uuid)
  | chunks (filter : ChunkFilter)
  | putChunks (chunks : List Chunk)
  | removeChunks (ids : List Uuid)
  | removeChunksOf (owners : List Uuid)
  | counts

inductive Answer where
  | done
  | documents (docs : List Document)
  | chunks (chunks : List Chunk)
  /-- So many records were removed. -/
  | removed (n : Nat)
  | counted (counts : Counts)

/-! ## Calling a store -/

namespace Store

variable {ω : Type}

def answer (s : Store ω) : Call → Action ω Answer
  | .prepare width => do s.prepare width; return .done
  | .documents filter => do return .documents (← s.documents filter none)
  | .putDocuments docs => do s.putDocuments docs; return .done
  | .removeDocuments ids => do return .removed (← s.removeDocuments ids)
  | .chunks filter => do return .chunks (← s.chunks filter none)
  | .putChunks chunks => do s.putChunks chunks; return .done
  | .removeChunks ids => do return .removed (← s.removeChunks ids)
  | .removeChunksOf owners => do return .removed (← s.removeChunksOf owners)
  | .counts => do return .counted (← s.counts)

/-- The answers to calls one after another; a call that fails does not keep the next from being made. -/
def answers (s : Store ω) : List Call → ω → List (Except Fault Answer)
  | [], _ => []
  | c :: cs, w => (s.answer c w).1 :: s.answers cs (s.answer c w).2

end Store

/-! ## What calls do to records -/

namespace Call

/-- Identifiers are not repeated in what is put or in the owners asked for, and chunks have vectors of the width
and fewer tokens than 32 bits hold. -/
def Admissible (width : Nat) : Call → Prop
  | .putDocuments docs => (docs.map Document.id).Nodup
  | .putChunks cs => (cs.map Chunk.id).Nodup ∧ ∀ c ∈ cs, c.vector.length = width ∧ c.tokens < UInt32.size
  | .chunks (.ownedBy ids) => ids.Nodup
  | _ => True

def effect : Call → Records → Records
  | .putDocuments docs => .putAll docs
  | .removeDocuments ids => .withoutDocuments ids
  | .putChunks cs => .fill cs
  | .removeChunks ids => .dropChunks ids
  | .removeChunksOf owners => .dropChunksOf owners
  | .prepare _ | .documents _ | .chunks _ | .counts => id

/-- The answer of a store with these records, prepared for vectors of the width. -/
def answer (width : Nat) (x : Records) : Call → Except Fault Answer
  | .prepare other =>
    if width = other then .ok .done else .error (.embedding (.dimensionMismatch width other))
  | .documents filter => .ok (.documents (x.documents.filter filter.selects))
  | .removeDocuments ids => .ok (.removed (x.documents.countP fun d => ids.contains d.id))
  | .chunks filter => .ok (.chunks (x.chunks.filter filter.selects))
  | .removeChunks ids => .ok (.removed (x.chunks.countP fun c => ids.contains c.id))
  | .removeChunksOf owners => .ok (.removed (x.chunks.countP fun c => owners.contains c.owner))
  | .counts => .ok (.counted ⟨x.documents.length, x.chunks.length⟩)
  | .putDocuments _ | .putChunks _ => .ok .done

def answers (width : Nat) : List Call → Records → List (Except Fault Answer)
  | [], _ => []
  | c :: cs, x => c.answer width x :: answers width cs (c.effect x)

end Call

/-! ## Agreement -/

/-- The answers are the same up to the order of records. -/
inductive Answer.Same : Answer → Answer → Prop
  | done : Same .done .done
  | documents {docs docs'} (h : docs.Perm docs') : Same (.documents docs) (.documents docs')
  | chunks {cs cs'} (h : cs.Perm cs') : Same (.chunks cs) (.chunks cs')
  | removed (n) : Same (.removed n) (.removed n)
  | counted (counts) : Same (.counted counts) (.counted counts)

/-- The fault says that vectors of a width were expected and others found, under whatever messages. -/
def Fault.IsMismatch (expected actual : Nat) (f : Fault) : Prop :=
  ∃ contexts : List String, f.causes = contexts.map .doing ++ [.part (.embedding (.dimensionMismatch expected actual))]

/-- Both give the same answer, or both find the same mismatch of widths. -/
inductive Agree : Except Fault Answer → Except Fault Answer → Prop
  | ok {a b} (h : a.Same b) : Agree (.ok a) (.ok b)
  | mismatch {expected actual f g} (hf : Fault.IsMismatch expected actual f) (hg : Fault.IsMismatch expected actual g) :
    Agree (.error f) (.error g)

theorem Answer.Same.symm {a b : Answer} (h : a.Same b) : b.Same a := by
  cases h with
  | done => exact .done
  | documents h => exact .documents h.symm
  | chunks h => exact .chunks h.symm
  | removed n => exact .removed n
  | counted counts => exact .counted counts

theorem Answer.Same.trans {a b c : Answer} (h : a.Same b) (h' : b.Same c) : a.Same c := by
  cases h with
  | done => exact h'
  | documents h => cases h' with | documents h' => exact .documents (h.trans h')
  | chunks h => cases h' with | chunks h' => exact .chunks (h.trans h')
  | removed n => exact h'
  | counted counts => exact h'

theorem Fault.IsMismatch.eq {f : Fault} {e a e' a' : Nat} (h : f.IsMismatch e a) (h' : f.IsMismatch e' a') :
    e = e' ∧ a = a' := by
  obtain ⟨cs, h⟩ := h
  obtain ⟨cs', h'⟩ := h'
  rw [h] at h'
  have := (List.append_inj' h' rfl).2
  simpa using this

theorem Agree.symm {x y : Except Fault Answer} (h : Agree x y) : Agree y x := by
  cases h with
  | ok h => exact .ok h.symm
  | mismatch hf hg => exact .mismatch hg hf

theorem Agree.trans {x y z : Except Fault Answer} (h : Agree x y) (h' : Agree y z) : Agree x z := by
  cases h with
  | ok h => cases h' with | ok h' => exact .ok (h.trans h')
  | mismatch hf hg =>
    cases h' with
    | mismatch hg' hz =>
      obtain ⟨rfl, rfl⟩ := hg.eq hg'
      exact .mismatch hf hz

theorem Agree.trans_all {xs ys zs : List (Except Fault Answer)} (h : List.Forall₂ Agree xs ys)
    (h' : List.Forall₂ Agree ys zs) : List.Forall₂ Agree xs zs := by
  induction h generalizing zs with
  | nil => exact h'
  | cons h _ ih =>
    cases h' with
    | cons h' hrest => exact .cons (h.trans h') (ih hrest)

theorem Fault.isMismatch_embedding (expected actual : Nat) :
    (Fault.embedding (.dimensionMismatch expected actual)).IsMismatch expected actual :=
  ⟨[], rfl⟩

theorem Fault.IsMismatch.within {f : Fault} {expected actual : Nat} (h : f.IsMismatch expected actual)
    (context : String) : (f.within context).IsMismatch expected actual := by
  obtain ⟨contexts, h⟩ := h
  exact ⟨context :: contexts, by rw [Fault.within, h]; rfl⟩

/-! ## From one call to all calls -/

section
variable {ω : Type} {s : Store ω} {width : Nat} {holds : Records → ω → Prop}

/-- The store keeps records, in the sense of `holds`, and each call does to them and answers what it should. -/
def Store.Refines (s : Store ω) (width : Nat) (holds : Records → ω → Prop) : Prop :=
  ∀ (c : Call) (x : Records) (w : ω), c.Admissible width → holds x w →
    Agree (s.answer c w).1 (c.answer width x) ∧ holds (c.effect x) (s.answer c w).2

theorem Store.Refines.answers (hs : s.Refines width holds) {calls : List Call} (hcalls : ∀ c ∈ calls, c.Admissible width)
    {x : Records} {w : ω} (h : holds x w) : List.Forall₂ Agree (s.answers calls w) (Call.answers width calls x) := by
  induction calls generalizing x w with
  | nil => exact .nil
  | cons c calls ih =>
    obtain ⟨hanswer, hnext⟩ := hs c x w (hcalls c List.mem_cons_self) h
    exact .cons hanswer (ih (fun c' hc' => hcalls c' (List.mem_cons_of_mem c hc')) hnext)

end

/-! ## The store in tables -/

namespace TableStore

/-- A store in tables refines the operations on records. -/
theorem refines (s : TableStore) (width : Nat) : (s.asStore Slot.whole).Refines width (s.Holds width) := by
  intro c x db hc h
  cases c with
  | prepare other =>
    have hrun := h.prepare_run other
    by_cases hw : width = other
    · rw [if_pos hw] at hrun
      rw [Store.answer, Action.bind_run_ok (x := (s.asStore Slot.whole).prepare other) hrun]
      exact ⟨by rw [Call.answer, if_pos hw]; exact .ok .done, h⟩
    · rw [if_neg hw] at hrun
      rw [Store.answer, Action.bind_run_error (x := (s.asStore Slot.whole).prepare other) hrun]
      refine ⟨?_, h⟩
      rw [Call.answer, if_neg hw]
      exact .mismatch ((Fault.isMismatch_embedding width other).within _) (Fault.isMismatch_embedding width other)
  | documents filter =>
    have hrun : (s.asStore Slot.whole).documents filter none db = (.ok (x.documents.filter filter.selects), db) :=
      congrArg (·, db) (h.documents_run filter)
    rw [Store.answer, Action.bind_run_ok hrun]
    exact ⟨.ok (.documents (.refl _)), h⟩
  | putDocuments docs =>
    obtain ⟨db', hrun, h'⟩ := h.putDocuments_run docs
    rw [Store.answer, Action.bind_run_ok (x := (s.asStore Slot.whole).putDocuments docs) hrun]
    exact ⟨.ok .done, h'⟩
  | removeDocuments ids =>
    obtain ⟨db', hrun, h'⟩ := h.removeDocuments_run ids
    rw [Store.answer, Action.bind_run_ok (x := (s.asStore Slot.whole).removeDocuments ids) hrun]
    rw [Call.answer, countP_eq_sub]
    exact ⟨.ok (.removed _), h'⟩
  | chunks filter =>
    have hids : ∀ ids, filter = .ownedBy ids → ids.Nodup := by
      rintro ids rfl
      exact hc
    obtain ⟨cs, hread, hperm⟩ := h.chunks_run hids
    have hrun : (s.asStore Slot.whole).chunks filter none db = (.ok cs, db) := congrArg (·, db) hread
    rw [Store.answer, Action.bind_run_ok hrun]
    exact ⟨.ok (.chunks hperm), h⟩
  | putChunks cs =>
    obtain ⟨db', hrun, h'⟩ := h.putChunks_run hc.2
    rw [Store.answer, Action.bind_run_ok (x := (s.asStore Slot.whole).putChunks cs) hrun]
    exact ⟨.ok .done, h'⟩
  | removeChunks ids =>
    obtain ⟨db', hrun, h'⟩ := h.removeChunks_run ids
    rw [Store.answer, Action.bind_run_ok (x := (s.asStore Slot.whole).removeChunks ids) hrun]
    rw [Call.answer, countP_eq_sub]
    exact ⟨.ok (.removed _), h'⟩
  | removeChunksOf owners =>
    obtain ⟨db', hrun, h'⟩ := h.removeChunksOf_run owners
    rw [Store.answer, Action.bind_run_ok (x := (s.asStore Slot.whole).removeChunksOf owners) hrun]
    rw [Call.answer, countP_eq_sub]
    exact ⟨.ok (.removed _), h'⟩
  | counts =>
    have hrun : (s.asStore Slot.whole).counts db = (.ok ⟨x.documents.length, x.chunks.length⟩, db) :=
      congrArg (Except.ok ·, db) h.counts_run
    rw [Store.answer, Action.bind_run_ok hrun]
    exact ⟨.ok (.counted _), h⟩

end TableStore

/-! ## The store in memory -/

namespace MemoryStore

/-- The store has the records, whose chunks have identifiers of their own, and is prepared for the width. -/
structure Holds (width : Nat) (x : Records) (m : MemoryStore) : Prop where
  records : m.records = x
  dimension : m.dimension = some width
  accepts : m.refusesChunks = false
  keys : (x.chunks.map Chunk.id).Nodup

theorem foldl_insertDocument {docs : List Document} (h : (docs.map Document.id).Nodup) (rows : List Document) :
    docs.foldl insertDocument rows = (rows.filter fun d => !(docs.map Document.id).contains d.id) ++ docs := by
  induction docs generalizing rows with
  | nil => simp
  | cons d docs ih =>
    rw [List.map_cons, List.nodup_cons] at h
    rw [List.foldl_cons, ih h.2, insertDocument, List.filter_append, List.filter_filter]
    have hself : [d].filter (fun e => !(docs.map Document.id).contains e.id) = [d] := by
      simpa using h.1
    rw [hself, List.append_assoc, List.singleton_append]
    refine congrArg (· ++ d :: docs) (List.filter_congr fun e _ => ?_)
    simp [Bool.and_comm]

theorem removeChunksOf_run (owners : List Uuid) (m : MemoryStore) :
    (asStore Slot.whole).removeChunksOf owners m = (.ok (m.removeChunksOf owners).1, (m.removeChunksOf owners).2) := by
  cases owners with
  | nil =>
    have hnone : m.removeChunksOf [] = (0, m) := by
      simp [removeChunksOf, selectChunks, ChunkFilter.selects, limited, removeChunks]
    rw [hnone]
    rfl
  | cons owner owners => rfl

theorem nodup_fill {x : Records} (hx : (x.chunks.map Chunk.id).Nodup) {cs : List Chunk} (hcs : (cs.map Chunk.id).Nodup) :
    ((x.fill cs).chunks.map Chunk.id).Nodup := by
  unfold Records.fill
  rw [List.map_append, List.nodup_append]
  refine ⟨hx.sublist (List.filter_sublist.map _), hcs, ?_⟩
  rintro id hid _ hid' rfl
  obtain ⟨c, hc, rfl⟩ := List.mem_map.mp hid
  rw [List.mem_filter] at hc
  simp only [Bool.not_eq_true', List.contains_eq_mem, decide_eq_false_iff_not] at hc
  exact hc.2 hid'

theorem Turns.holds {f : Records → Records} {width : Nat} {x : Records} {m m' : MemoryStore} (ht : m.Turns f m')
    (h : Holds width x m) (hkeys : ((f x).chunks.map Chunk.id).Nodup) : Holds width (f x) m' :=
  ⟨by rw [ht.records, h.records], ht.dimension.trans h.dimension, ht.refuses.trans h.accepts, hkeys⟩

theorem putDocuments_turns {docs : List Document} (h : (docs.map Document.id).Nodup) (m : MemoryStore) :
    m.Turns (Records.putAll docs) (m.putDocuments docs) := by
  unfold putDocuments
  cases hdocs : docs.isEmpty with
  | true =>
    rw [List.isEmpty_iff] at hdocs
    subst hdocs
    exact ⟨by simp [Records.putAll, records], rfl, rfl⟩
  | false => exact ⟨by simp [Records.putAll, records, mutated, foldl_insertDocument h], rfl, rfl⟩

theorem removeChunks_turns (ids : List Uuid) (m : MemoryStore) :
    m.Turns (Records.dropChunks ids) (m.removeChunks ids).2 := by
  rw [removeChunks_eq]
  exact ⟨rfl, rfl, rfl⟩

theorem withoutChunksOf_eq {x : Records} (hx : (x.chunks.map Chunk.id).Nodup) (owners : List Uuid) :
    x.withoutChunksOf owners = x.dropChunksOf owners :=
  congrArg (Records.mk x.documents) (Records.withoutChunksOf_chunks hx owners)

/-- A store in memory refines the operations on records. -/
theorem refines (width : Nat) : (asStore Slot.whole).Refines width (Holds width) := by
  intro c x m hc h
  obtain rfl := h.records
  have hsub {p : Chunk → Bool} : ((m.chunks.filter p).map Chunk.id).Nodup :=
    h.keys.sublist (List.filter_sublist.map _)
  cases c with
  | prepare other =>
    rcases prepare_cases other m with ⟨k, hk, hne, hrun⟩ | ⟨hk, hrun⟩
    · cases hk.symm.trans h.dimension
      rw [Store.answer, Action.bind_run_error (x := (asStore Slot.whole).prepare other) hrun]
      refine ⟨?_, h⟩
      rw [Call.answer, if_neg hne]
      exact .mismatch (Fault.isMismatch_embedding _ other) (Fault.isMismatch_embedding _ other)
    · have hwidth : width = other := by
        rw [h.dimension] at hk
        simpa using hk
      rw [Store.answer, Action.bind_run_ok (x := (asStore Slot.whole).prepare other) hrun]
      rw [Call.answer, if_pos hwidth]
      exact ⟨.ok .done, rfl, congrArg some hwidth.symm, h.accepts, h.keys⟩
  | documents filter => exact ⟨.ok (.documents (selectDocuments_perm m filter)), h⟩
  | putDocuments docs => exact ⟨.ok .done, (putDocuments_turns hc m).holds h h.keys⟩
  | removeDocuments ids =>
    rw [Call.answer, countP_eq_sub]
    exact ⟨.ok (.removed _), (removeDocuments_turns ids m).holds h h.keys⟩
  | chunks filter => exact ⟨.ok (.chunks (.refl _)), h⟩
  | putChunks cs =>
    rcases putChunks_cases cs m with ⟨-, hrefuses⟩ | ⟨-, m', hrun, hturns⟩
    · rw [h.accepts] at hrefuses
      cases hrefuses
    · rw [Store.answer, Action.bind_run_ok (x := (asStore Slot.whole).putChunks cs) hrun]
      exact ⟨.ok .done, hturns.holds h (nodup_fill h.keys hc.1)⟩
  | removeChunks ids =>
    rw [Call.answer, countP_eq_sub]
    exact ⟨.ok (.removed _), (removeChunks_turns ids m).holds h hsub⟩
  | removeChunksOf owners =>
    -- The store drops the chunks with the identifiers of those selected, and no other chunk has one of these.
    have hdrop := withoutChunksOf_eq h.keys owners
    have hcount : (m.removeChunksOf owners).1 = m.chunks.length - (m.records.withoutChunksOf owners).chunks.length := rfl
    have hnext := (removeChunksOf_turns owners m).holds h hsub
    rw [hdrop] at hnext
    rw [Store.answer, Action.bind_run_ok (removeChunksOf_run owners m), hcount, hdrop, Call.answer, countP_eq_sub]
    exact ⟨.ok (.removed _), hnext⟩
  | counts => exact ⟨.ok (.counted _), h⟩

end MemoryStore

/-! ## Both stores from the start on -/

section
variable {s : TableStore} {width : Nat} {calls : List Call}

theorem TableStore.answers_from_start (hs : s.documentsTable ≠ s.chunksTable) (hw : width < 2 ^ 31)
    (hcalls : ∀ c ∈ calls, c.Admissible width) :
    List.Forall₂ Agree ((s.asStore Slot.whole).answers (.prepare width :: calls) [])
      (.ok .done :: Call.answers width calls ⟨[], []⟩) := by
  obtain ⟨db, hrun, h⟩ := prepare_nil hs hw
  have hfirst : (s.asStore Slot.whole).answer (.prepare width) [] = (.ok .done, db) := Action.bind_run_ok hrun
  rw [Store.answers, hfirst]
  exact .cons (.ok .done) ((s.refines width).answers hcalls h)

theorem MemoryStore.answers_from_start (hcalls : ∀ c ∈ calls, c.Admissible width) :
    List.Forall₂ Agree ((asStore Slot.whole).answers (.prepare width :: calls) {})
      (.ok .done :: Call.answers width calls ⟨[], []⟩) :=
  .cons (.ok .done) ((refines width).answers hcalls ⟨rfl, rfl, rfl, .nil⟩)

/-- **Both stores agree.** One in tables and one in memory, both of them prepared for vectors of a width when they are
empty, give the same answers to the same calls from then on, and these are what the operations on records say. -/
theorem stores_agree (hs : s.documentsTable ≠ s.chunksTable) (hw : width < 2 ^ 31)
    (hcalls : ∀ c ∈ calls, c.Admissible width) :
    List.Forall₂ Agree ((s.asStore Slot.whole).answers (.prepare width :: calls) [])
        ((MemoryStore.asStore Slot.whole).answers (.prepare width :: calls) {}) ∧
      List.Forall₂ Agree ((MemoryStore.asStore Slot.whole).answers (.prepare width :: calls) {})
        (.ok .done :: Call.answers width calls ⟨[], []⟩) := by
  have htables := TableStore.answers_from_start hs hw hcalls
  have hmemory := MemoryStore.answers_from_start hcalls
  exact ⟨Agree.trans_all htables (List.Forall₂.flip (hmemory.imp fun _ _ h => h.symm)), hmemory⟩

end

/-- The premises hold of a store that is given a document and a chunk without a member's name, is asked for both, is
prepared for another width, and then loses them. -/
theorem stores_agree_sample :
    let s : TableStore := ⟨"documents", "chunks"⟩
    let d : Document := ⟨.ofNat 1, "Greeter.cs", "digest", 0⟩
    let c : Chunk := ⟨.ofNat 2, d.id, "", "Greeter", none, "class Greeter", 2, [0, 1], false⟩
    let calls : List Call := [.putDocuments [d], .putChunks [c], .documents (.atPath "Greeter.cs"),
      .chunks (.ownedBy [d.id]), .prepare 3, .removeChunksOf [d.id], .removeDocuments [d.id], .counts]
    s.documentsTable ≠ s.chunksTable ∧ 2 < 2 ^ 31 ∧ (∀ call ∈ calls, call.Admissible 2) ∧
      List.Forall₂ Agree ((s.asStore Slot.whole).answers (.prepare 2 :: calls) [])
        ((MemoryStore.asStore Slot.whole).answers (.prepare 2 :: calls) {}) := by
  intro s d c calls
  have hs : s.documentsTable ≠ s.chunksTable := by decide
  have hcalls : ∀ call ∈ calls, call.Admissible 2 := by
    simp [calls, Call.Admissible, c, UInt32.size]
  exact ⟨hs, by decide, hcalls, (stores_agree hs (by decide) hcalls).1⟩

/-- A width of `2 ^ 32 + 1` is cut to 1 where the table of chunks is created, so that a store in tables refuses the
width that it has just been prepared for, and one in memory does not. -/
theorem narrowed_width_disagrees :
    ¬ List.Forall₂ Agree
      (((⟨"documents", "chunks"⟩ : TableStore).asStore Slot.whole).answers [.prepare 4294967297, .counts] [])
      ((MemoryStore.asStore Slot.whole).answers [.prepare 4294967297, .counts] {}) := by
  have hrefused : ∃ f, (((⟨"documents", "chunks"⟩ : TableStore).asStore Slot.whole).answer (.prepare 4294967297) []).1 =
      .error f := ⟨_, rfl⟩
  intro h
  cases h with
  | cons hfirst _ =>
    obtain ⟨f, hf⟩ := hrefused
    rw [hf] at hfirst
    cases hfirst

end CodeCorpus
