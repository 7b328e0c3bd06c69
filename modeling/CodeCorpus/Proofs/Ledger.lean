import CodeCorpus.Proofs.Memory
import CodeCorpus.Sync

/-!
# Worlds with a store in memory

A run acts on a world of any type. A ledger says what is seen of such a world: the store in memory that
it holds, the identifiers made in it so far, and the chunks that its corpora have handed out, the latest
last. The last two only ever grow, so that identifiers are fresh just when the list of those made has no
repetition.
-/

namespace CodeCorpus

/-- What is seen of a world. -/
structure Ledger (ω : Type) where
  slot : Slot ω MemoryStore
  /-- The identifiers made so far. -/
  made : ω → List Uuid
  /-- The chunks handed out so far, each list with the document that it was asked for. -/
  returned : ω → List (Uuid × List Chunk)
  get_set : ∀ m w, slot.get (slot.set m w) = m
  made_set : ∀ m w, made (slot.set m w) = made w
  returned_set : ∀ m w, returned (slot.set m w) = returned w

namespace Ledger

variable {ω α β : Type} (L : Ledger ω)

def records (w : ω) : Records := (L.slot.get w).records

def dimension (w : ω) : Option Nat := (L.slot.get w).dimension

def sync (env : Conditions ω) : Sync ω := ⟨MemoryStore.asStore L.slot, env⟩

/-- The store stays as it is, except that its refusal of chunks may be switched. -/
structure Aside (w w' : ω) (ids : List Uuid) (answers : List (Uuid × List Chunk)) : Prop where
  store : ∃ b, L.slot.get w' = { L.slot.get w with refusesChunks := b }
  made : L.made w' = L.made w ++ ids
  returned : L.returned w' = L.returned w ++ answers

/-- The records go through `f`, and the world ends among those of `I`. -/
structure Leads (I : ω → Prop) (w w' : ω) (f : Records → Records) (ids : List Uuid)
    (answers : List (Uuid × List Chunk)) : Prop where
  holds : I w'
  records : L.records w' = f (L.records w)
  dimension : L.dimension w' = L.dimension w
  made : L.made w' = L.made w ++ ids
  returned : L.returned w' = L.returned w ++ answers

/-- The worlds of `I` stay so when the store changes and goes on to refuse chunks if it did. -/
def Writable (I : ω → Prop) : Prop :=
  ∀ m w, I w → m.refusesChunks = (L.slot.get w).refusesChunks → I (L.slot.set m w)

/-- What a run may rely on. In the worlds of `I`, which it never leaves, its conditions and its corpus
leave the store alone; `found` relates stored documents to the changes found and the identifiers made for
them, `said` a document to the answer for its chunks, to whether the store then refuses chunks, and to the
identifiers and answers put on record. -/
structure Keeps (I : ω → Prop) (env : Conditions ω) (source : Source ω)
    (found : List Document → Except Fault Changes → List Uuid → Prop)
    (said : Pending → Except Fault (List Chunk) → Bool → List Uuid → List (Uuid × List Chunk) → Prop) :
    Prop where
  write : L.Writable I
  asked : ∀ w, I w → I (env.cancelled w).2 ∧ L.Aside w (env.cancelled w).2 [] []
  changes : ∀ stored w, I w → I (source.changes stored w).2 ∧
    ∃ ids, L.Aside w (source.changes stored w).2 ids [] ∧ found stored (source.changes stored w).1 ids
  chunks : ∀ p w, I w → I (source.chunks p w).2 ∧
    ∃ ids answers, L.Aside w (source.chunks p w).2 ids answers ∧
      said p (source.chunks p w).1 (L.slot.get (source.chunks p w).2).refusesChunks ids answers

variable {L} {I : ω → Prop}

/-! ## Steps -/

theorem Aside.leads {w w' : ω} {ids : List Uuid} {answers : List (Uuid × List Chunk)}
    (h : L.Aside w w' ids answers) (hI : I w') : L.Leads I w w' id ids answers := by
  obtain ⟨b, hb⟩ := h.store
  refine ⟨hI, ?_, ?_, h.made, h.returned⟩
  · simp only [Ledger.records, hb]; rfl
  · simp only [Ledger.dimension, hb]

theorem Leads.trans {w w' w'' : ω} {f g : Records → Records} {ids ids' : List Uuid}
    {answers answers' : List (Uuid × List Chunk)} (h : L.Leads I w w' f ids answers)
    (h' : L.Leads I w' w'' g ids' answers') :
    L.Leads I w w'' (fun x => g (f x)) (ids ++ ids') (answers ++ answers') := by
  refine ⟨h'.holds, ?_, ?_, ?_, ?_⟩
  · rw [h'.records, h.records]
  · rw [h'.dimension, h.dimension]
  · rw [h'.made, h.made, List.append_assoc]
  · rw [h'.returned, h.returned, List.append_assoc]

theorem Leads.refl {w : ω} (hw : I w) : L.Leads I w w id [] [] :=
  ⟨hw, rfl, rfl, (List.append_nil _).symm, (List.append_nil _).symm⟩

theorem leads_set (write : L.Writable I) {m : MemoryStore} {w : ω} {f : Records → Records} (hw : I w)
    (ht : (L.slot.get w).Turns f m) : L.Leads I w (L.slot.set m w) f [] [] := by
  refine ⟨write m w hw ht.refuses, ?_, ?_, ?_, ?_⟩
  · unfold Ledger.records; rw [L.get_set]; exact ht.records
  · unfold Ledger.dimension; rw [L.get_set]; exact ht.dimension
  · rw [L.made_set, List.append_nil]
  · rw [L.returned_set, List.append_nil]

theorem Leads.congr {w w' : ω} {f g : Records → Records} {ids : List Uuid}
    {answers : List (Uuid × List Chunk)} (h : L.Leads I w w' f ids answers)
    (hfg : f (L.records w) = g (L.records w)) : L.Leads I w w' g ids answers :=
  ⟨h.holds, h.records.trans hfg, h.dimension, h.made, h.returned⟩

/-! ## Removal -/

section
variable (env : Conditions ω) (write : L.Writable I)
include write

theorem removeChunksOf_run (ids : List Uuid) {w : ω} (hw : I w) :
    ∃ n w', (MemoryStore.asStore L.slot).removeChunksOf ids w = (.ok n, w') ∧
      L.Leads I w w' (Records.withoutChunksOf ids) [] [] := by
  cases ids with
  | nil =>
    have hn : L.records w = (L.records w).withoutChunksOf [] := (Records.withoutChunksOf_nil _).symm
    exact ⟨0, w, rfl, (Leads.refl hw).congr hn⟩
  | cons id ids =>
    exact ⟨_, _, rfl, leads_set write hw (MemoryStore.removeChunksOf_turns (id :: ids) (L.slot.get w))⟩

theorem remove_run (docs : List Document) {w : ω} (hw : I w) :
    ∃ w', (L.sync env).remove docs w = (.ok (), w') ∧
      L.Leads I w w' (Records.without (docs.map Document.id)) [] [] := by
  obtain ⟨n, v, hv, hl⟩ := removeChunksOf_run write (docs.map Document.id) hw
  have hl' := leads_set write hl.holds (MemoryStore.removeDocuments_turns (docs.map Document.id) (L.slot.get v))
  exact ⟨_, Action.bind_run_ok (Action.within_run_ok _ hv), hl.trans hl'⟩

theorem removeAtPath_run (path : String) {w : ω} (hw : I w) :
    ∃ w', (L.sync env).removeAtPath path w =
        (.ok (Changes.holders (L.records w).documents path).length, w') ∧
      L.Leads I w w' (Records.withoutPath path) [] [] := by
  have hp : ((L.slot.get w).selectDocuments (.atPath path) none).Perm
      (Changes.holders (L.records w).documents path) := MemoryStore.selectDocuments_perm _ _
  have hids : Records.without (((L.slot.get w).selectDocuments (.atPath path) none).map Document.id)
      (L.records w) = (L.records w).withoutPath path :=
    Records.without_congr fun id => (hp.map Document.id).mem_iff
  have hread : (L.sync env).removeAtPath path w =
      (if ((L.slot.get w).selectDocuments (.atPath path) none).isEmpty then pure 0 else do
        (L.sync env).remove ((L.slot.get w).selectDocuments (.atPath path) none)
        pure ((L.slot.get w).selectDocuments (.atPath path) none).length : Action ω Nat) w := rfl
  rw [hread, ← hp.length_eq]
  generalize (L.slot.get w).selectDocuments (.atPath path) none = docs at hids ⊢
  cases docs with
  | nil =>
    have hn : Records.without [] (L.records w) = L.records w := Records.without_nil _
    exact ⟨w, rfl, (Leads.refl hw).congr (hn.symm.trans hids)⟩
  | cons d docs =>
    obtain ⟨w', hr, hl⟩ := remove_run env write (d :: docs) hw
    exact ⟨w', Action.bind_run_ok hr, hl.congr hids⟩

end

end Ledger

end CodeCorpus
