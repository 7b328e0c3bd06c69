import CodeCorpus.Proofs.Tables
import CodeCorpus.Store.Memory
import Mathlib.Data.Finset.Card
import Mathlib.Data.List.Perm.Subperm
import Mathlib.Data.Nat.Count

/-!
# Chunks read in batches

The chunks of documents are read from a table batch by batch, and each batch is a query of its own. So a chunk comes
once for each batch in which its document stands, however often the document stands there. A document that stands in
two batches is what sets a store in tables apart from one in memory, which looks at each chunk once.
-/

namespace CodeCorpus

section
variable {α β : Type}

/-! ## Lists that are cut off or repeated -/

theorem take_flatMap_take (n : Nat) (l : List α) (f : α → List β) :
    (l.flatMap fun a => (f a).take n).take n = (l.flatMap f).take n := by
  induction l with
  | nil => rfl
  | cons a l ih =>
    -- what is left of the limit behind the first list is at most the limit
    have hrest : (l.flatMap fun a => (f a).take n).take (n - (f a).length) =
        (l.flatMap f).take (n - (f a).length) := by
      have hle : min (n - (f a).length) n = n - (f a).length := by omega
      rw [← hle, ← List.take_take, ← List.take_take, ih]
    rw [List.flatMap_cons, List.flatMap_cons, List.take_append, List.take_append, List.take_take, Nat.min_self,
      List.length_take]
    by_cases hle : (f a).length ≤ n
    · rw [Nat.min_eq_right hle, hrest]
    · have hzero : n - min n (f a).length = 0 ∧ n - (f a).length = 0 := by omega
      rw [hzero.1, hzero.2, List.take_zero, List.take_zero]

theorem filter_flatMap_perm (rows : List α) (sets : List β) (p : β → α → Bool) :
    (sets.flatMap fun b => rows.filter (p b)).Perm
      (rows.flatMap fun a => List.replicate (sets.countP fun b => p b a) a) := by
  induction sets with
  | nil => simp
  | cons b sets ih =>
    have hhere : rows.filter (p b) = rows.flatMap fun a => List.replicate (if p b a then 1 else 0) a := by
      clear ih
      induction rows with
      | nil => rfl
      | cons a rows ih => by_cases ha : p b a <;> simp [ha, ih]
    have hboth (a : α) : List.replicate ((b :: sets).countP fun b => p b a) a =
        List.replicate (if p b a then 1 else 0) a ++ List.replicate (sets.countP fun b => p b a) a := by
      rw [List.countP_cons, Nat.add_comm, List.replicate_append_replicate]
    simp only [hboth]
    rw [List.flatMap_cons, hhere]
    exact (ih.append_left _).trans (List.flatMap_append_perm rows _ _)

theorem countP_pos_le_sum (rows : List α) (times : α → Nat) :
    rows.countP (fun a => 0 < times a) ≤ (rows.map times).sum := by
  induction rows with
  | nil => exact Nat.le_refl _
  | cons a rows ih =>
    rw [List.countP_cons, List.map_cons, List.sum_cons]
    by_cases ha : 0 < times a
    · simp only [ha, decide_true, if_true]
      omega
    · simp only [ha, decide_false, Bool.false_eq_true, if_false]
      omega

/-- Only if each is counted at most once is the sum so small. -/
theorem le_one_of_sum_le {rows : List α} {times : α → Nat}
    (h : (rows.map times).sum ≤ rows.countP fun a => 0 < times a) : ∀ a ∈ rows, times a ≤ 1 := by
  induction rows with
  | nil => simp
  | cons a rows ih =>
    have hrest := countP_pos_le_sum rows times
    rw [List.countP_cons, List.map_cons, List.sum_cons] at h
    have ha : times a ≤ 1 ∧ (rows.map times).sum ≤ rows.countP fun a => 0 < times a := by
      by_cases ha : 0 < times a
      · simp only [ha, decide_true, if_true] at h
        omega
      · simp only [ha, decide_false, Bool.false_eq_true, if_false] at h
        omega
    intro b hb
    rcases List.mem_cons.mp hb with rfl | hb
    · exact ha.1
    · exact ih ha.2 b hb

theorem flatMap_replicate_of_le_one {rows : List α} {times : α → Nat} (h : ∀ a ∈ rows, times a ≤ 1) :
    (rows.flatMap fun a => List.replicate (times a) a) = rows.filter fun a => 0 < times a := by
  induction rows with
  | nil => rfl
  | cons a rows ih =>
    have ha := h a List.mem_cons_self
    rw [List.flatMap_cons, ih fun b hb => h b (List.mem_cons_of_mem a hb)]
    by_cases hpos : 0 < times a
    · have hone : times a = 1 := by omega
      simp [hone]
    · have hzero : times a = 0 := by omega
      simp [hzero]

end

namespace Database

/-! ## Places in batches -/

theorem batches_eq {α : Type} (size : Nat) (h : 0 < size) (xs : List α) :
    batches size xs =
      (List.range ((xs.length + size - 1) / size)).map fun k => (xs.drop (size * k)).take size := by
  fun_induction batches size xs with
  | case1 =>
    have hzero : (([] : List α).length + size - 1) / size = 0 := Nat.div_eq_of_lt (by simp; omega)
    rw [hzero]
    rfl
  | case2 => omega
  | case3 x rest _ ih =>
    have hcount : ((x :: rest).length + size - 1) / size =
        (((x :: rest).drop size).length + size - 1) / size + 1 := by
      rw [List.length_drop]
      generalize hn : (x :: rest).length = n
      have hpos : 0 < n := by rw [← hn]; simp
      by_cases hle : size ≤ n
      · obtain ⟨m, rfl⟩ := Nat.exists_eq_add_of_le hle
        rw [← Nat.add_div_right _ h]
        congr 1
        omega
      · have hone : (n + size - 1) / size = 1 := Nat.div_eq_of_lt_le (by omega) (by omega)
        have hzero : (n - size + size - 1) / size = 0 := Nat.div_eq_of_lt (by omega)
        omega
    rw [ih, hcount, List.range_succ_eq_map, List.map_cons, List.map_map]
    simp [Nat.mul_succ, Nat.add_comm]

/-- The numbers of the batches in which an identifier stands. -/
def batchesNaming (ids : List Uuid) (id : Uuid) : Finset Nat :=
  ((Finset.range ids.length).filter fun i => ids[i]? = some id).image (· / batchSize)

section
variable {ids : List Uuid} {id : Uuid}

theorem mem_batchesNaming {k : Nat} : k ∈ batchesNaming ids id ↔ ∃ i, ids[i]? = some id ∧ i / batchSize = k := by
  simp only [batchesNaming, Finset.mem_image, Finset.mem_filter, Finset.mem_range]
  constructor
  · intro ⟨i, ⟨_, hi⟩, hk⟩
    exact ⟨i, hi, hk⟩
  · intro ⟨i, hi, hk⟩
    exact ⟨i, ⟨(List.getElem?_eq_some_iff.mp hi).1, hi⟩, hk⟩

theorem batchesNaming_nonempty : (batchesNaming ids id).Nonempty ↔ id ∈ ids := by
  simp only [Finset.Nonempty, mem_batchesNaming, List.mem_iff_getElem?]
  constructor
  · intro ⟨_, i, hi, _⟩
    exact ⟨i, hi⟩
  · intro ⟨i, hi⟩
    exact ⟨_, i, hi, rfl⟩

theorem card_batchesNaming_le_one : (batchesNaming ids id).card ≤ 1 ↔
    ∀ i j, ids[i]? = some id → ids[j]? = some id → i / batchSize = j / batchSize := by
  rw [Finset.card_le_one]
  constructor
  · intro h i j hi hj
    exact h _ (mem_batchesNaming.mpr ⟨i, hi, rfl⟩) _ (mem_batchesNaming.mpr ⟨j, hj, rfl⟩)
  · intro h k hk l hl
    obtain ⟨i, hi, rfl⟩ := mem_batchesNaming.mp hk
    obtain ⟨j, hj, rfl⟩ := mem_batchesNaming.mp hl
    exact h i j hi hj

theorem mem_batch {k : Nat} :
    id ∈ (ids.drop (batchSize * k)).take batchSize ↔ ∃ i, ids[i]? = some id ∧ i / batchSize = k := by
  rw [List.mem_iff_getElem?]
  constructor
  · intro ⟨j, hj⟩
    rw [List.getElem?_take, List.getElem?_drop] at hj
    by_cases hlt : j < batchSize
    · rw [if_pos hlt] at hj
      refine ⟨_, hj, ?_⟩
      rw [Nat.mul_add_div (by decide), Nat.div_eq_of_lt hlt, Nat.add_zero]
    · rw [if_neg hlt] at hj
      cases hj
  · intro ⟨i, hi, hk⟩
    refine ⟨i % batchSize, ?_⟩
    rw [List.getElem?_take, List.getElem?_drop, if_pos (Nat.mod_lt _ (by decide)), ← hk, Nat.div_add_mod]
    exact hi

theorem countP_batches (ids : List Uuid) (id : Uuid) :
    (batches batchSize ids).countP (·.contains id) = (batchesNaming ids id).card := by
  have hcount := Nat.count_eq_card_filter_range (fun k => id ∈ (ids.drop (batchSize * k)).take batchSize)
    ((ids.length + batchSize - 1) / batchSize)
  have hsame : ((Finset.range ((ids.length + batchSize - 1) / batchSize)).filter fun k =>
      id ∈ (ids.drop (batchSize * k)).take batchSize) = batchesNaming ids id := by
    ext k
    rw [Finset.mem_filter, Finset.mem_range, mem_batch, mem_batchesNaming]
    constructor
    · exact fun h => h.2
    · intro ⟨i, hi, hk⟩
      have hlt := (List.getElem?_eq_some_iff.mp hi).1
      refine ⟨?_, i, hi, hk⟩
      rw [← hk]
      unfold batchSize
      omega
  rw [batches_eq batchSize (by decide), List.countP_map, ← hsame, ← hcount, Nat.count]
  congr 1
  funext k
  simp

end

end Database

namespace TableStore

open Database

/-! ## What is read -/

/-- The rows are in the store's table of chunks, and there are none where there is no table. -/
def HoldsChunks (s : TableStore) (width : Nat) (rows : List Chunk) (db : Database) : Prop :=
  db.table? s.chunksTable = some (.chunks width rows) ∨ db.table? s.chunksTable = none ∧ rows = []

/-- Asked for the chunks of documents, the store gives each of `chunks` once, and with a limit so many of them, each
once, or all if they are fewer. -/
structure ReadsOnce (s : TableStore) (ids : List Uuid) (db : Database) (chunks : List Chunk) : Prop where
  all : ∃ cs, s.chunks (.ownedBy ids) none db = .ok cs ∧ cs.Perm chunks
  limited : ∀ n, ∃ cs, s.chunks (.ownedBy ids) (some n) db = .ok cs ∧ cs.Subperm chunks ∧
    cs.length = min n chunks.length

/-- What the batches of identifiers select, one batch after the other. -/
def readInBatches (ids : List Uuid) (rows : List Chunk) : List Chunk :=
  (batches batchSize ids).flatMap fun batch => rows.filter (ChunkFilter.ownedBy batch).selects

theorem readInBatches_perm (ids : List Uuid) (rows : List Chunk) :
    (readInBatches ids rows).Perm (rows.flatMap fun c => List.replicate (batchesNaming ids c.owner).card c) := by
  simp only [← countP_batches]
  exact filter_flatMap_perm rows (batches batchSize ids) fun batch => (ChunkFilter.ownedBy batch).selects

section
variable {s : TableStore} {width : Nat} {rows : List Chunk} {db : Database} {ids : List Uuid}

/-- The limit of a single query cuts off nothing that the limit of the whole would not. -/
theorem chunks_in_batches (h : s.HoldsChunks width rows db) (limit : Option Nat) :
    s.chunks (.ownedBy ids) limit db = .ok (CodeCorpus.limited limit (readInBatches ids rows)) := by
  unfold TableStore.chunks
  rcases h with h | ⟨h, rfl⟩
  · have hne := (batches_spec batchSize (by decide) ids).2
    simp only [h, chunksOfBatches_run width rows limit hne, Except.map]
    cases limit with
    | none => rfl
    | some n => exact congrArg Except.ok (take_flatMap_take n _ _)
  · have hnone : readInBatches ids [] = [] := by simp [readInBatches]
    rw [h, hnone]
    cases limit <;> simp [CodeCorpus.limited]

theorem readsOnce_iff (h : s.HoldsChunks width rows db) (chunks : List Chunk) :
    s.ReadsOnce ids db chunks ↔ (readInBatches ids rows).Perm chunks := by
  constructor
  · intro hreads
    obtain ⟨cs, hrun, hperm⟩ := hreads.all
    rw [chunks_in_batches h] at hrun
    cases hrun
    exact hperm
  · intro hperm
    refine ⟨⟨_, chunks_in_batches h none, hperm⟩, fun n => ⟨_, chunks_in_batches h (some n), ?_, ?_⟩⟩
    · exact (List.take_sublist n _).subperm.trans hperm.subperm
    · rw [CodeCorpus.limited, List.length_take, hperm.length_eq]

theorem readInBatches_perm_selected_iff :
    (readInBatches ids rows).Perm (rows.filter (ChunkFilter.ownedBy ids).selects) ↔
      ∀ c ∈ rows, (batchesNaming ids c.owner).card ≤ 1 := by
  have hread := readInBatches_perm ids rows
  have hselected : rows.filter (ChunkFilter.ownedBy ids).selects =
      rows.filter fun c => 0 < (batchesNaming ids c.owner).card := by
    apply List.filter_congr
    intro c _
    rw [ChunkFilter.selects, Bool.eq_iff_iff, List.contains_iff_mem, decide_eq_true_iff, Finset.card_pos,
      batchesNaming_nonempty]
  rw [hselected]
  constructor
  · intro h
    have hlength := (hread.symm.trans h).length_eq
    rw [List.length_flatMap, ← List.countP_eq_length_filter] at hlength
    simp only [List.length_replicate] at hlength
    apply le_one_of_sum_le
    exact Nat.le_of_eq hlength
  · intro h
    rwa [flatMap_replicate_of_le_one h] at hread

/-- **Reading in batches.** A chunk is read once for each batch in which its document stands, and a limit cuts off
what comes after. So a table gives what a store in memory with the same chunks selects, each chunk once, just if the
document of no chunk stands in two batches. -/
theorem batched_reads {m : MemoryStore} (h : s.HoldsChunks width m.chunks db) (ids : List Uuid) :
    (∃ cs, s.chunks (.ownedBy ids) none db = .ok cs ∧
      cs.Perm (m.chunks.flatMap fun c => List.replicate (batchesNaming ids c.owner).card c) ∧
      ∀ n, s.chunks (.ownedBy ids) (some n) db = .ok (cs.take n)) ∧
    (s.ReadsOnce ids db (m.selectChunks (.ownedBy ids) none) ↔
      ∀ c ∈ m.chunks, ∀ i j, ids[i]? = some c.owner → ids[j]? = some c.owner → i / batchSize = j / batchSize) := by
  refine ⟨⟨_, chunks_in_batches h none, readInBatches_perm ids m.chunks, fun n => chunks_in_batches h (some n)⟩, ?_⟩
  rw [readsOnce_iff h]
  refine Iff.trans readInBatches_perm_selected_iff ?_
  simp only [card_batchesNaming_le_one]

end

end TableStore

namespace Chunk

/-- A chunk of a document, both with small identifiers. -/
def numbered (id owner : Nat) : Chunk :=
  ⟨.ofNat id, .ofNat owner, "", "Greeter", none, "class Greeter", 2, [0, 1], false⟩

end Chunk

open TableStore in
/-- Two chunks are read once each where the document of the first fills a batch and that of the second begins the
next. -/
theorem batched_reads_full_batch :
    let s : TableStore := ⟨"documents", "chunks"⟩
    let m : MemoryStore := { chunks := [.numbered 3 1, .numbered 4 2] }
    let db : Database := [("chunks", .chunks 2 m.chunks)]
    let ids := List.replicate 256 (Uuid.ofNat 1) ++ [.ofNat 2]
    s.HoldsChunks 2 m.chunks db ∧ s.ReadsOnce ids db (m.selectChunks (.ownedBy ids) none) := by
  intro s m db ids
  have hholds : s.HoldsChunks 2 m.chunks db := .inl rfl
  have hplace (i : Nat) (id : Uuid) (h : ids[i]? = some id) :
      i < 256 ∧ id = .ofNat 1 ∨ i = 256 ∧ id = .ofNat 2 := by
    have hlt := (List.getElem?_eq_some_iff.mp h).1
    have hlength : ids.length = 257 := by rw [List.length_append, List.length_replicate]; rfl
    by_cases hi : i < 256
    · rw [List.getElem?_append_left (by rwa [List.length_replicate]), List.getElem?_replicate, if_pos hi] at h
      exact .inl ⟨hi, (Option.some.inj h).symm⟩
    · obtain rfl : i = 256 := by omega
      rw [List.getElem?_append_right (by rw [List.length_replicate]), List.length_replicate] at h
      exact .inr ⟨rfl, (Option.some.inj h).symm⟩
  have hne : Uuid.ofNat 1 ≠ .ofNat 2 := by decide
  refine ⟨hholds, (batched_reads hholds ids).2.mpr ?_⟩
  intro c _ i j hi hj
  rcases hplace i _ hi with ⟨hi, ho⟩ | ⟨hi, ho⟩ <;> rcases hplace j _ hj with ⟨hj, ho'⟩ | ⟨hj, ho'⟩
  · unfold Database.batchSize
    omega
  · exact absurd (ho.symm.trans ho') hne
  · exact absurd (ho'.symm.trans ho) hne
  · rw [hi, hj]

open TableStore in
/-- Where a document is named 257 times its chunk is read twice, and also where two chunks are asked for. -/
theorem repeated_owner_read_twice :
    let s : TableStore := ⟨"documents", "chunks"⟩
    let m : MemoryStore := { chunks := [.numbered 3 1] }
    let db : Database := [("chunks", .chunks 2 m.chunks)]
    let ids := List.replicate 257 (Uuid.ofNat 1)
    s.chunks (.ownedBy ids) none db = .ok [.numbered 3 1, .numbered 3 1] ∧
      s.chunks (.ownedBy ids) (some 2) db = .ok [.numbered 3 1, .numbered 3 1] ∧
      ¬ s.ReadsOnce ids db (m.selectChunks (.ownedBy ids) none) := by
  intro s m db ids
  have hholds : s.HoldsChunks 2 m.chunks db := .inl rfl
  have hread : readInBatches ids m.chunks = [.numbered 3 1, .numbered 3 1] := by
    have hcount : (ids.length + Database.batchSize - 1) / Database.batchSize = 2 := by
      rw [List.length_replicate]
      rfl
    unfold readInBatches
    rw [Database.batches_eq _ (by decide), hcount]
    simp only [List.range_succ, List.range_zero, ids, Database.batchSize, List.drop_replicate, List.take_replicate]
    rfl
  refine ⟨?_, ?_, ?_⟩
  · rw [chunks_in_batches hholds, hread]
    rfl
  · rw [chunks_in_batches hholds, hread]
    rfl
  · rw [readsOnce_iff hholds, hread]
    intro hperm
    exact absurd hperm.length_eq (by decide)

end CodeCorpus
