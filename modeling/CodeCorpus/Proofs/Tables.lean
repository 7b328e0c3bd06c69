import CodeCorpus.Proofs.Quoting
import CodeCorpus.Proofs.Records
import CodeCorpus.Store.Table

/-!
# Records of a store in tables

What each operation of a store in tables does to the records in its two tables. A condition that names several
identifiers selects the rows with one of them, so deleting batch by batch deletes the rows with any of them, and
reading batch by batch gives each row once if no identifier is named twice.
-/

namespace CodeCorpus

/-! ## Conditions on columns -/

namespace Table

/-- A row has one of the identifiers in a column. -/
def named (column : String) (ids : List Uuid) (column? : String → Option String) : Bool :=
  (Condition.mk column (ids.map Uuid.toText)).holds column?

theorem contains_toText (ids : List Uuid) (id : Uuid) : (ids.map Uuid.toText).contains id.toText = ids.contains id := by
  rw [Bool.eq_iff_iff, List.contains_iff_mem, List.contains_iff_mem, List.mem_map]
  constructor
  · rintro ⟨other, hmem, h⟩
    rwa [← Uuid.toText_injective h]
  · exact fun hmem => ⟨id, hmem, rfl⟩

@[simp] theorem named_document (ids : List Uuid) (d : Document) : named "id" ids d.column? = ids.contains d.id :=
  contains_toText ids d.id

@[simp] theorem named_chunk (ids : List Uuid) (c : Chunk) : named "id" ids c.column? = ids.contains c.id :=
  contains_toText ids c.id

@[simp] theorem named_owner (ids : List Uuid) (c : Chunk) :
    named "document_id" ids c.column? = ids.contains c.owner :=
  contains_toText ids c.owner

theorem named_nil (column : String) (column? : String → Option String) : named column [] column? = false := by
  unfold named Condition.holds
  cases column? column <;> rfl

theorem named_append (column : String) (ids ids' : List Uuid) (column? : String → Option String) :
    named column (ids ++ ids') column? = (named column ids column? || named column ids' column?) := by
  unfold named Condition.holds
  cases column? column with
  | none => rfl
  | some value => simp [Bool.decide_or]

theorem isColumnCharacter_of_mem {t : Table} {column : String} (h : column ∈ t.textColumns) :
    column.toList.all Condition.isColumnCharacter := by
  cases t with
  | documents =>
    revert column
    change ∀ column ∈ ["id", "relative_path", "content_hash"], _
    decide
  | chunks =>
    revert column
    change ∀ column ∈ ["id", "document_id", "namespace", "type_name", "method_name", "snippet"], _
    decide

theorem condition?_isOneOf {t : Table} {column : String} (h : column ∈ t.textColumns) {values : List String}
    (hne : values ≠ []) : t.condition? (Condition.isOneOf column values) = .ok ⟨column, values⟩ := by
  unfold condition?
  rw [Condition.read?_isOneOf (isColumnCharacter_of_mem h) hne]
  exact if_pos (List.contains_iff_mem.mpr h)

theorem condition?_equals {t : Table} {column : String} (h : column ∈ t.textColumns) (value : String) :
    t.condition? (Condition.equals column value) = .ok ⟨column, [value]⟩ := by
  unfold condition?
  rw [Condition.read?_equals (isColumnCharacter_of_mem h)]
  exact if_pos (List.contains_iff_mem.mpr h)

theorem restrict_restrict (t : Table) (p q : (String → Option String) → Bool) :
    (t.restrict p).restrict q = t.restrict fun column? => p column? && q column? := by
  cases t <;> simp [restrict, List.filter_filter, Bool.and_comm]

theorem restrict_true (t : Table) : (t.restrict fun _ => true) = t := by
  cases t <;> simp [restrict]

theorem textColumns_restrict (t : Table) (p : (String → Option String) → Bool) :
    (t.restrict p).textColumns = t.textColumns := by
  cases t <;> rfl

theorem delete_isOneOf {t : Table} {column : String} (h : column ∈ t.textColumns) {ids : List Uuid} (hne : ids ≠ []) :
    t.delete (Condition.isOneOf column (ids.map Uuid.toText)) =
      .ok (t.restrict fun column? => !named column ids column?) := by
  unfold delete
  rw [condition?_isOneOf h (by simpa using hne)]
  rfl

theorem select_isOneOf (t : Table) (column : String) (h : column ∈ t.textColumns) {ids : List Uuid} (hne : ids ≠ []) :
    t.select (Condition.isOneOf column (ids.map Uuid.toText)) = .ok (t.restrict (named column ids)) := by
  unfold select
  rw [condition?_isOneOf h (by simpa using hne)]
  rfl

theorem select_atPath (docs : List Document) (path : String) :
    (Table.documents docs).select (Condition.equals "relative_path" path) =
      .ok (.documents (docs.filter (DocumentFilter.atPath path).selects)) := by
  have hcolumn : "relative_path" ∈ (Table.documents docs).textColumns := by simp [textColumns]
  unfold select
  rw [condition?_equals hcolumn]
  refine congrArg (fun rows => Except.ok (Table.documents rows)) (List.filter_congr fun d _ => ?_)
  simp [Condition.holds, Document.column?, DocumentFilter.selects]
  rfl

end Table

/-! ## Batches -/

namespace Database

theorem batches_spec {α : Type} (size : Nat) (h : 0 < size) (xs : List α) :
    (batches size xs).flatten = xs ∧ ∀ batch ∈ batches size xs, batch ≠ [] := by
  fun_induction batches size xs with
  | case1 => exact ⟨rfl, by simp⟩
  | case2 => omega
  | case3 x rest _ ih =>
    refine ⟨?_, fun batch hbatch => ?_⟩
    · rw [List.flatten_cons, ih.1, List.take_append_drop]
    · rcases List.mem_cons.mp hbatch with rfl | hbatch
      · simp
        omega
      · exact ih.2 batch hbatch

theorem foldl_delete {column : String} (batches : List (List Uuid)) (hne : ∀ batch ∈ batches, batch ≠ []) {t : Table}
    (h : column ∈ t.textColumns) :
    batches.foldl (fun (t : Except String Table) batch =>
        t.bind fun t => t.delete (Condition.isOneOf column (batch.map Uuid.toText))) (.ok t) =
      .ok (t.restrict fun column? => !Table.named column batches.flatten column?) := by
  induction batches generalizing t with
  | nil =>
    simp only [List.foldl_nil, List.flatten_nil, Table.named_nil, Bool.not_false, Table.restrict_true]
  | cons batch batches ih =>
    have hfirst := Table.delete_isOneOf h (hne batch List.mem_cons_self)
    have hrest := ih (fun b hb => hne b (List.mem_cons_of_mem batch hb))
      (t := t.restrict fun column? => !Table.named column batch column?) (by rwa [Table.textColumns_restrict])
    rw [List.foldl_cons, Except.bind, hfirst, hrest, Table.restrict_restrict]
    simp only [List.flatten_cons, Table.named_append, Bool.not_or]

/-! ## Named tables -/

theorem table?_cons (e : String × Table) (db : Database) (name : String) :
    table? (e :: db) name = if e.1 = name then some e.2 else table? db name := by
  unfold table?
  by_cases h : e.1 = name <;> simp [h]

theorem table?_setTable {db : Database} {name : String} {t₀ : Table} (h : db.table? name = some t₀) (t : Table) :
    (db.setTable name t).table? name = some t := by
  induction db with
  | nil => cases h
  | cons e db ih =>
    unfold setTable at ih ⊢
    rw [table?_cons] at h
    rw [List.map_cons, table?_cons]
    by_cases he : e.1 = name
    · simp [he]
    · rw [if_neg he] at h
      simpa [he] using ih h

theorem table?_setTable_other {db : Database} {name other : String} (h : other ≠ name) (t : Table) :
    (db.setTable name t).table? other = db.table? other := by
  induction db with
  | nil => rfl
  | cons e db ih =>
    unfold setTable at ih ⊢
    rw [List.map_cons, table?_cons, table?_cons, ih]
    by_cases he : e.1 = name
    · simp [he, Ne.symm h]
    · simp [he]

theorem table?_append (db : Database) (name other : String) (t : Table) :
    table? (db ++ [(name, t)]) other = (table? db other).or (if name = other then some t else none) := by
  induction db with
  | nil => exact table?_cons _ _ _
  | cons e db ih =>
    rw [List.cons_append, table?_cons, table?_cons, ih]
    by_cases he : e.1 = other
    · rw [if_pos he, if_pos he]
      rfl
    · rw [if_neg he, if_neg he]

theorem table?_create (db : Database) (name : String) (t : Table) :
    (db.create name t).table? name = some ((db.table? name).getD t) := by
  unfold create
  cases h : db.table? name with
  | some t₀ => simp [h]
  | none => simp [table?_append, h]

theorem table?_create_other {db : Database} {name other : String} (h : other ≠ name) (t : Table) :
    (db.create name t).table? other = db.table? other := by
  unfold create
  split
  · rfl
  · rw [table?_append, if_neg h.symm, Option.or_none]

/-- Deleting the rows with one of the identifiers leaves the others and touches no other table. -/
theorem deleteIn_run {db : Database} {name : String} {t : Table} (ht : db.table? name = some t) (column : String)
    (hcolumn : column ∈ t.textColumns) (ids : List Uuid) :
    ∃ db', deleteIn name column ids db =
        (.ok (t.rowCount - (t.restrict fun column? => !Table.named column ids column?).rowCount), db') ∧
      db'.table? name = some (t.restrict fun column? => !Table.named column ids column?) ∧
      ∀ other ≠ name, db'.table? other = db.table? other := by
  unfold deleteIn
  cases ids with
  | nil =>
    simp only [Table.named_nil, Bool.not_false, Table.restrict_true, List.isEmpty_nil, if_true, Nat.sub_self]
    exact ⟨db, rfl, ht, fun _ _ => rfl⟩
  | cons id ids =>
    obtain ⟨hflatten, hne⟩ := batches_spec batchSize (by decide) (id :: ids)
    have hdelete := foldl_delete (batches batchSize (id :: ids)) hne hcolumn
    rw [hflatten] at hdelete
    simp only [List.isEmpty_cons, Bool.false_eq_true, if_false, ht]
    rw [hdelete]
    exact ⟨_, rfl, table?_setTable ht _, fun other hother => table?_setTable_other hother _⟩

theorem append_run {db : Database} {name : String} {t t' : Table} (ht : db.table? name = some t)
    (add : Table → Except String Table) (hadd : add t = .ok t') :
    ∃ db', append name add db = (.ok (), db') ∧ db'.table? name = some t' ∧
      ∀ other ≠ name, db'.table? other = db.table? other := by
  unfold append
  simp only [ht, hadd]
  exact ⟨_, rfl, table?_setTable ht _, fun other hother => table?_setTable_other hother _⟩

end Database

/-! ## The two tables of a store -/

namespace Records

/-- The records with documents in place of those with the same identifiers. -/
def putAll (docs : List Document) (x : Records) : Records :=
  ⟨(x.documents.filter fun d => !(docs.map Document.id).contains d.id) ++ docs, x.chunks⟩

def dropChunks (ids : List Uuid) (x : Records) : Records :=
  ⟨x.documents, x.chunks.filter fun c => !ids.contains c.id⟩

def dropChunksOf (owners : List Uuid) (x : Records) : Records :=
  ⟨x.documents, x.chunks.filter fun c => !owners.contains c.owner⟩

end Records

namespace TableStore

open Database

/-- The two tables of the store are different ones, and hold the records; the chunks have vectors of the width. -/
structure Holds (s : TableStore) (width : Nat) (x : Records) (db : Database) : Prop where
  distinct : s.documentsTable ≠ s.chunksTable
  documents : db.table? s.documentsTable = some (.documents x.documents)
  chunks : db.table? s.chunksTable = some (.chunks width x.chunks)

theorem createdWidth_eq {width : Nat} (h : width < 2 ^ 31) : createdWidth width = width := by
  have hmsb : (BitVec.ofNat 32 width).msb = false := by
    rw [BitVec.msb_eq_false_iff_two_mul_lt, BitVec.toNat_ofNat]
    omega
  unfold createdWidth
  rw [BitVec.signExtend_eq_setWidth_of_msb_false hmsb, BitVec.toNat_setWidth, BitVec.toNat_ofNat]
  omega

/-- Where there are no tables yet, a store makes its two tables, and they are empty. -/
theorem prepare_nil {s : TableStore} (hs : s.documentsTable ≠ s.chunksTable) {width : Nat} (h : width < 2 ^ 31) :
    ∃ db, s.prepare width [] = (.ok (), db) ∧ s.Holds width ⟨[], []⟩ db := by
  have hdocuments := table?_create [] s.documentsTable (.documents [])
  generalize hdb₁ : create [] s.documentsTable (.documents []) = db₁ at hdocuments
  have hchunks : (db₁.create s.chunksTable (.chunks width [])).table? s.chunksTable = some (.chunks width []) := by
    rw [table?_create, ← hdb₁, table?_create_other hs.symm]
    rfl
  refine ⟨db₁.create s.chunksTable (.chunks width []), ?_, hs, ?_, hchunks⟩
  · unfold prepare
    simp only [hdb₁, createdWidth_eq h, hchunks, if_true]
  · rw [table?_create_other hs]
    exact hdocuments

theorem chunksOfBatches_run (width : Nat) (rows : List Chunk) (limit : Option Nat) {batches : List (List Uuid)}
    (hne : ∀ batch ∈ batches, batch ≠ []) :
    chunksOfBatches (.chunks width rows) limit batches =
      .ok (batches.flatMap fun ids => limited limit (rows.filter (ChunkFilter.ownedBy ids).selects)) := by
  induction batches with
  | nil => rfl
  | cons batch batches ih =>
    have hselect := Table.select_isOneOf (.chunks width rows) "document_id"
      (by simp [Table.textColumns]) (hne batch List.mem_cons_self)
    simp only [Table.restrict, Table.named_owner] at hselect
    simp only [chunksOfBatches, hselect, ih fun b hb => hne b (List.mem_cons_of_mem batch hb)]
    cases limit <;> rfl

/-- What two conditions that exclude each other select is what either selects. -/
theorem filter_or_perm {α : Type} {p q : α → Bool} {l : List α} (h : ∀ a ∈ l, p a = true → q a = false) :
    (l.filter p ++ l.filter q).Perm (l.filter fun a => p a || q a) := by
  have hsplit := List.filter_append_perm p (l.filter fun a => p a || q a)
  rw [List.filter_filter, List.filter_filter] at hsplit
  have hfirst : l.filter (fun a => p a && (p a || q a)) = l.filter p :=
    List.filter_congr fun a _ => by cases p a <;> rfl
  have hsecond : l.filter (fun a => !p a && (p a || q a)) = l.filter q :=
    List.filter_congr fun a ha => by
      cases hp : p a with
      | false => rfl
      | true => rw [h a ha hp]; rfl
  rwa [hfirst, hsecond] at hsplit

/-- Batches that name no identifier twice select each row once. -/
theorem ownedBy_flatten_perm (rows : List Chunk) (batches : List (List Uuid)) (h : batches.flatten.Nodup) :
    (batches.flatMap fun ids => rows.filter (ChunkFilter.ownedBy ids).selects).Perm
      (rows.filter (ChunkFilter.ownedBy batches.flatten).selects) := by
  induction batches with
  | nil =>
    refine .of_eq (List.filter_eq_nil_iff.mpr fun c _ => ?_).symm
    simp [ChunkFilter.selects]
  | cons batch batches ih =>
    rw [List.flatten_cons, List.nodup_append] at h
    obtain ⟨-, hrest, hdisjoint⟩ := h
    have hexclude : ∀ c ∈ rows, (ChunkFilter.ownedBy batch).selects c = true →
        (ChunkFilter.ownedBy batches.flatten).selects c = false := by
      intro c _ hc
      by_contra hother
      exact hdisjoint _ (List.contains_iff_mem.mp hc) _ (List.contains_iff_mem.mp (Bool.not_eq_false _ ▸ hother)) rfl
    have hboth := filter_or_perm hexclude
    have hselects : (fun c => (ChunkFilter.ownedBy batch).selects c || (ChunkFilter.ownedBy batches.flatten).selects c) =
        (ChunkFilter.ownedBy (batch ++ batches.flatten)).selects := by
      funext c
      simp [ChunkFilter.selects, Bool.decide_or]
    rw [hselects] at hboth
    rw [List.flatMap_cons, List.flatten_cons]
    exact ((ih hrest).append_left _).trans hboth

namespace Holds

variable {s : TableStore} {width : Nat} {x : Records} {db : Database} (h : s.Holds width x db)
include h

theorem prepare_run (dimension : Nat) :
    s.prepare dimension db =
      if width = dimension then (.ok (), db)
      else (.error ((Fault.embedding (.dimensionMismatch width dimension)).within
        s!"Table '{s.chunksTable}' was created for another embedding model"), db) := by
  have hdocuments : db.create s.documentsTable (.documents []) = db := by
    unfold create
    simp [h.documents]
  have hchunks : db.create s.chunksTable (.chunks (createdWidth dimension) []) = db := by
    unfold create
    simp [h.chunks]
  unfold prepare
  simp only [hdocuments, hchunks, h.chunks]

theorem documents_run (filter : DocumentFilter) :
    s.documents filter none db = .ok (x.documents.filter filter.selects) := by
  unfold TableStore.documents
  simp only [h.documents]
  cases filter with
  | all => rfl
  | containing part => rfl
  | atPath path =>
    simp only [Table.select_atPath]
    simp [Table.asDocuments, Except.map, limited, List.filter_filter]

theorem removeDocuments_run (ids : List Uuid) :
    ∃ db', s.removeDocuments ids db =
        (.ok (x.documents.length - (x.withoutDocuments ids).documents.length), db') ∧
      s.Holds width (x.withoutDocuments ids) db' := by
  obtain ⟨db', hrun, hself, hother⟩ := deleteIn_run h.documents "id" (by simp [Table.textColumns]) ids
  simp only [Table.restrict, Table.named_document, Table.rowCount] at hrun hself
  exact ⟨db', hrun, h.distinct, hself, (hother _ h.distinct.symm).trans h.chunks⟩

theorem putDocuments_run (docs : List Document) :
    ∃ db', s.putDocuments docs db = (.ok (), db') ∧ s.Holds width (x.putAll docs) db' := by
  unfold putDocuments
  cases hdocs : docs.isEmpty with
  | true =>
    rw [List.isEmpty_iff] at hdocs
    subst hdocs
    refine ⟨db, rfl, h.distinct, ?_, h.chunks⟩
    simpa [Records.putAll] using h.documents
  | false =>
    obtain ⟨db₁, hdelete, h₁⟩ := removeDocuments_run h (docs.map Document.id)
    obtain ⟨db₂, happend, hself, hother⟩ := append_run h₁.documents (appendDocuments docs) rfl
    unfold removeDocuments at hdelete
    refine ⟨db₂, ?_, h.distinct, hself, (hother _ h.distinct.symm).trans h₁.chunks⟩
    simp [hdelete, happend]

theorem counts_run : s.counts db = ⟨x.documents.length, x.chunks.length⟩ := by
  unfold counts
  rw [h.documents, h.chunks]
  rfl

theorem removeChunks_run (ids : List Uuid) :
    ∃ db', s.removeChunks ids db = (.ok (x.chunks.length - (x.dropChunks ids).chunks.length), db') ∧
      s.Holds width (x.dropChunks ids) db' := by
  obtain ⟨db', hrun, hself, hother⟩ := deleteIn_run h.chunks "id" (by simp [Table.textColumns]) ids
  simp only [Table.restrict, Table.named_chunk, Table.rowCount] at hrun hself
  exact ⟨db', hrun, h.distinct, (hother _ h.distinct).trans h.documents, hself⟩

theorem removeChunksOf_run (owners : List Uuid) :
    ∃ db', s.removeChunksOf owners db = (.ok (x.chunks.length - (x.dropChunksOf owners).chunks.length), db') ∧
      s.Holds width (x.dropChunksOf owners) db' := by
  obtain ⟨db', hrun, hself, hother⟩ :=
    deleteIn_run h.chunks "document_id" (by simp [Table.textColumns]) owners
  simp only [Table.restrict, Table.named_owner, Table.rowCount] at hrun hself
  exact ⟨db', hrun, h.distinct, (hother _ h.distinct).trans h.documents, hself⟩

theorem putChunks_run {chunks : List Chunk} (hchunks : ∀ c ∈ chunks, c.vector.length = width ∧ c.tokens < UInt32.size) :
    ∃ db', s.putChunks chunks db = (.ok (), db') ∧ s.Holds width (x.fill chunks) db' := by
  cases chunks with
  | nil =>
    refine ⟨db, rfl, h.distinct, h.documents, ?_⟩
    simpa [Records.fill] using h.chunks
  | cons first others =>
    have hfirst : first.vector.length = width := (hchunks first List.mem_cons_self).1
    -- A row counts tokens in 32 bits, and these counts fit.
    have hrows : (first :: others).map asRow = first :: others := by
      have hrow : ∀ c ∈ first :: others, asRow c = id c := by
        intro c hc
        unfold asRow
        rw [Nat.mod_eq_of_lt (hchunks c hc).2]
        rfl
      rw [List.map_congr_left hrow, List.map_id]
    have hadd : appendChunks width (first :: others)
        (.chunks width (x.dropChunks ((first :: others).map Chunk.id)).chunks) =
          .ok (.chunks width (x.fill (first :: others)).chunks) := by
      simp only [appendChunks, if_true, hrows]
      rfl
    have hodd : (first :: others).find? (fun c => decide (c.vector.length ≠ width)) = none := by
      rw [List.find?_eq_none]
      intro c hc
      simp [(hchunks c hc).1]
    obtain ⟨db₁, hdelete, h₁⟩ := removeChunks_run h ((first :: others).map Chunk.id)
    obtain ⟨db₂, happend, hself, hother⟩ := append_run h₁.chunks _ hadd
    unfold removeChunks at hdelete
    refine ⟨db₂, ?_, h.distinct, (hother _ h.distinct).trans h₁.documents, hself⟩
    have hmade : RowBatches.refusal? (first :: others) = none := rfl
    unfold putChunks
    simp only [hfirst, hodd, hmade, hdelete, happend]

theorem chunks_run {filter : ChunkFilter} (hfilter : ∀ ids, filter = .ownedBy ids → ids.Nodup) :
    ∃ cs, s.chunks filter none db = .ok cs ∧ cs.Perm (x.chunks.filter filter.selects) := by
  unfold TableStore.chunks
  simp only [h.chunks]
  cases filter with
  | all => exact ⟨x.chunks, rfl, .of_eq (List.filter_eq_self.mpr fun _ _ => rfl).symm⟩
  | ownedBy ids =>
    obtain ⟨hflatten, hne⟩ := batches_spec batchSize (by decide) ids
    have hread := chunksOfBatches_run width x.chunks none hne
    have hperm := ownedBy_flatten_perm x.chunks (batches batchSize ids)
      (by rw [hflatten]; exact hfilter ids rfl)
    rw [hflatten] at hperm
    exact ⟨_, by simp only [hread]; rfl, hperm⟩

end Holds

end TableStore

end CodeCorpus
