import CodeCorpus.Proofs.Records

/-!
# Records of a store in memory

What each operation of a store in memory does to its records. Nothing but `prepare` changes the width,
and no operation the refusal of chunks.
-/

namespace CodeCorpus

section
variable {α : Type}

theorem countP_eq_sub (l : List α) (p : α → Bool) :
    l.countP p = l.length - (l.filter fun a => !p a).length := by
  have hall := List.length_eq_countP_add_countP (l := l) p
  rw [List.countP_eq_length_filter (p := fun a => decide ¬p a = true)] at hall
  simp only [Bool.not_eq_true, Bool.decide_eq_false] at hall
  omega

theorem filter_of_countP_eq_zero {l : List α} {p : α → Bool} (h : l.countP p = 0) : (l.filter fun a => !p a) = l := by
  rw [List.filter_eq_self]
  intro a ha
  simpa using List.countP_eq_zero.mp h a ha

end

namespace MemoryStore

def records (m : MemoryStore) : Records := ⟨m.documents, m.chunks⟩

/-- A store becomes another of the same width, which refuses chunks if it did, and the records go through
`f`. -/
structure Turns (m : MemoryStore) (f : Records → Records) (m' : MemoryStore) : Prop where
  records : m'.records = f m.records
  dimension : m'.dimension = m.dimension
  refuses : m'.refusesChunks = m.refusesChunks

/-- The removal of the chunks of documents, as the store does it: it reads them and removes them by
their own identifiers. -/
def removeChunksOf (owners : List Uuid) (m : MemoryStore) : Nat × MemoryStore :=
  m.removeChunks ((m.selectChunks (.ownedBy owners) none).map Chunk.id)

theorem removeDocuments_eq (ids : List Uuid) (m : MemoryStore) :
    (m.removeDocuments ids).2 = { m with
      documents := m.documents.filter fun d => !ids.contains d.id
      mutations := m.mutations + min 1 (m.documents.countP fun d => ids.contains d.id) } := by
  unfold removeDocuments
  simp only [← countP_eq_sub]
  by_cases h : (m.documents.countP fun d => ids.contains d.id) = 0
  · rw [if_pos h, h, filter_of_countP_eq_zero h]
    rfl
  · rw [if_neg h, Nat.min_eq_left (Nat.pos_of_ne_zero h)]
    rfl

theorem removeChunks_eq (ids : List Uuid) (m : MemoryStore) :
    (m.removeChunks ids).2 = { m with
      chunks := m.chunks.filter fun c => !ids.contains c.id
      mutations := m.mutations + min 1 (m.chunks.countP fun c => ids.contains c.id) } := by
  unfold removeChunks
  simp only [← countP_eq_sub]
  by_cases h : (m.chunks.countP fun c => ids.contains c.id) = 0
  · rw [if_pos h, h, filter_of_countP_eq_zero h]
    rfl
  · rw [if_neg h, Nat.min_eq_left (Nat.pos_of_ne_zero h)]
    rfl

theorem removeChunksOf_turns (ids : List Uuid) (m : MemoryStore) :
    m.Turns (Records.withoutChunksOf ids) (m.removeChunksOf ids).2 := by
  unfold removeChunksOf
  rw [removeChunks_eq]
  exact ⟨rfl, rfl, rfl⟩

theorem removeDocuments_turns (ids : List Uuid) (m : MemoryStore) :
    m.Turns (Records.withoutDocuments ids) (m.removeDocuments ids).2 := by
  rw [removeDocuments_eq]
  exact ⟨rfl, rfl, rfl⟩

theorem putDocument_turns (d : Document) (m : MemoryStore) : m.Turns (Records.put d) (m.putDocuments [d]) :=
  ⟨rfl, rfl, rfl⟩

theorem putChunks_cases (cs : List Chunk) (m : MemoryStore) :
    (m.putChunks cs = (.error (.store (.storeFailed "chunk writes disabled")), m) ∧
      (m.refusesChunks && !cs.isEmpty) = true) ∨
    ((m.refusesChunks && !cs.isEmpty) = false ∧ ∃ m', m.putChunks cs = (.ok (), m') ∧
      m.Turns (Records.fill cs) m') := by
  unfold putChunks
  cases cs with
  | nil => exact .inr ⟨by simp, m, rfl, by simp [records, Records.fill], rfl, rfl⟩
  | cons c cs =>
    by_cases h : m.refusesChunks
    · exact .inl (by simp [h])
    · exact .inr ⟨by simp [h], _, (if_neg (by simp)).trans (if_neg h), rfl, rfl, rfl⟩

theorem prepare_cases (width : Nat) (m : MemoryStore) :
    (∃ k, m.dimension = some k ∧ k ≠ width ∧
      m.prepare width = (.error (.embedding (.dimensionMismatch k width)), m)) ∨
    ((m.dimension = none ∨ m.dimension = some width) ∧
      m.prepare width = (.ok (), { m with dimension := some width })) := by
  unfold prepare
  cases hd : m.dimension with
  | none => exact .inr ⟨.inl rfl, rfl⟩
  | some k =>
    by_cases hk : k = width
    · subst hk
      exact .inr ⟨.inr rfl, by simp [← hd]⟩
    · exact .inl ⟨k, rfl, hk, by simp [hk]⟩

theorem selectDocuments_perm (m : MemoryStore) (filter : DocumentFilter) :
    (m.selectDocuments filter none).Perm (m.documents.filter filter.selects) :=
  List.mergeSort_perm _ _

theorem selectAll_perm (m : MemoryStore) : (m.selectDocuments .all none).Perm m.documents := by
  have h := selectDocuments_perm m .all
  rwa [List.filter_eq_self.mpr (fun d _ => rfl : ∀ d ∈ m.documents, DocumentFilter.all.selects d = true)] at h

end MemoryStore

end CodeCorpus
