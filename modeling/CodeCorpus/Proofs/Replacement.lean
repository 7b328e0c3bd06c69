import CodeCorpus.Proofs.Tables

/-!
# Failed replacements of rows

Rows are replaced by deleting those with the same identifiers and then adding the new ones, and the deletion is not
undone. Chunks of which no batch can be made are found before it, such as those with vectors of unlike widths, and
where there is no table there is nothing to delete. But a table that does not take the new rows has by then lost the
old ones: so a failed replacement changes nothing just if it is refused before, or no row has one of the identifiers
(`failed_put`).
-/

namespace CodeCorpus

namespace Table

variable {t : Table} {gone : List Uuid}

def ids : Table → List Uuid
  | .documents rows => rows.map Document.id
  | .chunks _ rows => rows.map Chunk.id

/-- The table without the rows that have one of the identifiers. -/
def without (gone : List Uuid) (t : Table) : Table := t.restrict fun column? => !named "id" gone column?

def TakesDocuments : Table → Prop
  | .documents _ => True
  | .chunks _ _ => False

def TakesWidth (width : Nat) : Table → Prop
  | .documents _ => False
  | .chunks own _ => own = width

theorem without_eq_self_iff : t.without gone = t ↔ ∀ id ∈ gone, id ∉ t.ids := by
  cases t with
  | documents rows =>
    simp only [without, restrict, named_document, documents.injEq, List.filter_eq_self, ids, List.mem_map]
    grind
  | chunks width rows =>
    simp only [without, restrict, named_chunk, chunks.injEq, List.filter_eq_self, ids, List.mem_map]
    grind

theorem id_mem_textColumns (t : Table) : "id" ∈ t.textColumns := by
  cases t <;> simp [textColumns]

end Table

/-- The vectors of the chunks are not all of one width. -/
def MixedWidths (chunks : List Chunk) : Prop := ∃ c ∈ chunks, ∃ d ∈ chunks, c.vector.length ≠ d.vector.length

/-- No batch can be made of the chunks. -/
def Unbuilt [RowBatches] (chunks : List Chunk) : Prop :=
  MixedWidths chunks ∨ chunks ≠ [] ∧ (RowBatches.refusal? chunks).isSome

namespace Database

variable {db db' : Database} {name : String}

/-- Both have the same tables with the same rows. -/
def Same (db db' : Database) : Prop := ∀ name, db'.table? name = db.table? name

/-- Replaces the rows of a table that have one of the identifiers by what `add` adds. -/
def replace (name : String) (gone : List Uuid) (add : Table → Except String Table) (db : Database) :
    Except Fault Unit × Database :=
  match deleteIn name "id" gone db with
  | (.error f, db) => (.error f, db)
  | (.ok _, db) => append name add db

/-- The rows of the table with one of the identifiers are gone, and nothing else. -/
structure Loses (name : String) (gone : List Uuid) (db db' : Database) : Prop where
  rows : db'.table? name = (db.table? name).map (Table.without gone)
  others : ∀ other ≠ name, db'.table? other = db.table? other

theorem Loses.same_iff {gone : List Uuid} (h : Loses name gone db db') :
    Same db db' ↔ ∀ t, db.table? name = some t → ∀ id ∈ gone, id ∉ t.ids := by
  have hsame : Same db db' ↔ (db.table? name).map (Table.without gone) = db.table? name := by
    constructor
    · intro hsame
      rw [← h.rows, hsame name]
    · intro hrows other
      by_cases hother : other = name
      · rw [hother, h.rows, hrows]
      · exact h.others other hother
  rw [hsame]
  cases db.table? name with
  | none => simp
  | some t => simp [Table.without_eq_self_iff]

section
variable {gone : List Uuid} {add : Table → Except String Table}

theorem deleteIn_loses (name : String) (gone : List Uuid) (db : Database) :
    ∃ n db', deleteIn name "id" gone db = (.ok n, db') ∧ Loses name gone db db' := by
  cases h : db.table? name with
  | none =>
    refine ⟨0, db, by simp [deleteIn, h], ?_, fun _ _ => rfl⟩
    simp [h]
  | some t =>
    obtain ⟨db', hrun, hself, hothers⟩ := deleteIn_run h "id" t.id_mem_textColumns gone
    refine ⟨_, db', hrun, ?_, hothers⟩
    rw [hself, h]
    rfl

/-- Rows are added or the database stays as it is. -/
theorem append_cases (name : String) (add : Table → Except String Table) (db : Database) :
    (∃ db', append name add db = (.ok (), db')) ∧ (∃ t, db.table? name = some t ∧ (add t).isOk = true) ∨
      (∃ f, append name add db = (.error f, db)) ∧ ∀ t, db.table? name = some t → (add t).isOk = false := by
  unfold append
  cases db.table? name with
  | none => simp
  | some t => cases h : add t <;> simp [h, Except.isOk, Except.toBool]

theorem replace_cases (name : String) (gone : List Uuid) (add : Table → Except String Table) (db : Database) :
    (∃ db', replace name gone add db = (.ok (), db')) ∧
        (∃ t, db.table? name = some t ∧ (add (t.without gone)).isOk = true) ∨
      (∃ f db', replace name gone add db = (.error f, db') ∧ Loses name gone db db') ∧
        ∀ t, db.table? name = some t → (add (t.without gone)).isOk = false := by
  obtain ⟨n, db', hdelete, hloses⟩ := deleteIn_loses name gone db
  have hrun : replace name gone add db = append name add db' := by
    simp [replace, hdelete]
  rw [hrun]
  rcases append_cases name add db' with ⟨hadded, t', ht', hok⟩ | ⟨⟨f, hfails⟩, hno⟩
  · rw [hloses.rows, Option.map_eq_some_iff] at ht'
    obtain ⟨t, ht, rfl⟩ := ht'
    exact .inl ⟨hadded, t, ht, hok⟩
  · refine .inr ⟨⟨f, db', hfails, hloses⟩, ?_⟩
    intro t ht
    apply hno
    rw [hloses.rows, ht, Option.map_some]

end

end Database

namespace TableStore

open Database

/-! ## What is refused -/

/-- The chunks cannot be put: no batch can be made of them, or the table is missing or for other rows. -/
def RefusesChunks [RowBatches] (s : TableStore) (chunks : List Chunk) (db : Database) : Prop :=
  Unbuilt chunks ∨ ∃ c ∈ chunks, ∀ t, db.table? s.chunksTable = some t → ¬ t.TakesWidth c.vector.length

def RefusesDocuments (s : TableStore) (docs : List Document) (db : Database) : Prop :=
  docs ≠ [] ∧ ∀ t, db.table? s.documentsTable = some t → ¬ t.TakesDocuments

theorem appendChunks_isOk {width : Nat} {chunks : List Chunk} {gone : List Uuid} {t : Table} :
    (appendChunks width chunks (t.without gone)).isOk = true ↔ t.TakesWidth width := by
  cases t with
  | documents rows => simp [Table.without, Table.restrict, appendChunks, Table.TakesWidth, Except.isOk, Except.toBool]
  | chunks own rows =>
    by_cases h : own = width <;>
      simp [Table.without, Table.restrict, appendChunks, Table.TakesWidth, Except.isOk, Except.toBool, h]

theorem appendDocuments_isOk {docs : List Document} {gone : List Uuid} {t : Table} :
    (appendDocuments docs (t.without gone)).isOk = true ↔ t.TakesDocuments := by
  cases t <;> simp [Table.without, Table.restrict, appendDocuments, Table.TakesDocuments, Except.isOk, Except.toBool]

section
variable (s : TableStore) {chunks : List Chunk} {db : Database}

theorem putDocuments_eq {docs : List Document} (h : docs ≠ []) (db : Database) :
    s.putDocuments docs db = replace s.documentsTable (docs.map Document.id) (appendDocuments docs) db := by
  have hsome : docs.isEmpty = false := by simpa using h
  simp only [putDocuments, hsome]
  rfl

theorem putChunks_unbuilt [RowBatches] (h : Unbuilt chunks) (db : Database) :
    ∃ f, s.putChunks chunks db = (.error f, db) := by
  have hsome : chunks ≠ [] := by
    rcases h with ⟨c, hc, -⟩ | ⟨hsome, -⟩
    · exact List.ne_nil_of_mem hc
    · exact hsome
  obtain ⟨first, others, rfl⟩ := List.exists_cons_of_ne_nil hsome
  unfold putChunks
  cases hodd : (first :: others).find? fun e => decide (e.vector.length ≠ first.vector.length) with
  | some odd => simp only [hodd]; exact ⟨_, rfl⟩
  | none =>
    rw [List.find?_eq_none] at hodd
    have hsame (e : Chunk) (he : e ∈ first :: others) : e.vector.length = first.vector.length := by
      simpa using hodd e he
    rcases h with ⟨c, hc, d, hd, hne⟩ | ⟨-, hrefused⟩
    · exact absurd ((hsame c hc).trans (hsame d hd).symm) hne
    · obtain ⟨reason, hreason⟩ := Option.isSome_iff_exists.mp hrefused
      simp only [hreason]
      split <;> exact ⟨_, rfl⟩

theorem length_eq_of_built [RowBatches] (h : ¬ Unbuilt chunks) {c d : Chunk} (hc : c ∈ chunks) (hd : d ∈ chunks) :
    d.vector.length = c.vector.length := by
  by_contra hne
  exact h (.inl ⟨d, hd, c, hc, hne⟩)

theorem putChunks_eq [RowBatches] (h : ¬ Unbuilt chunks) {c : Chunk} (hc : c ∈ chunks) (db : Database) :
    s.putChunks chunks db = replace s.chunksTable (chunks.map Chunk.id) (appendChunks c.vector.length chunks) db := by
  obtain ⟨first, others, rfl⟩ := List.exists_cons_of_ne_nil (List.ne_nil_of_mem hc)
  have hodd : (first :: others).find? (fun d => decide (d.vector.length ≠ first.vector.length)) = none := by
    rw [List.find?_eq_none]
    intro d hd
    simp [length_eq_of_built h List.mem_cons_self hd]
  have hmade : RowBatches.refusal? (first :: others) = none := by
    rw [← Option.not_isSome_iff_eq_none]
    exact fun hrefused => h (.inr ⟨List.cons_ne_nil _ _, hrefused⟩)
  rw [length_eq_of_built h List.mem_cons_self hc]
  simp only [putChunks, hodd, hmade]
  rfl

/-! ## What a failure leaves -/

theorem putDocuments_cases {docs : List Document} (h : docs ≠ []) (db : Database) :
    (∃ db', s.putDocuments docs db = (.ok (), db')) ∧ ¬ s.RefusesDocuments docs db ∨
      (∃ f db', s.putDocuments docs db = (.error f, db') ∧ Loses s.documentsTable (docs.map Document.id) db db') ∧
        s.RefusesDocuments docs db := by
  rw [putDocuments_eq s h]
  rcases replace_cases s.documentsTable (docs.map Document.id) (appendDocuments docs) db with
    ⟨hdone, t, ht, htakes⟩ | ⟨hfails, hno⟩
  · rw [appendDocuments_isOk] at htakes
    exact .inl ⟨hdone, fun hrefused => hrefused.2 t ht htakes⟩
  · refine .inr ⟨hfails, h, ?_⟩
    intro t ht
    rw [← appendDocuments_isOk, hno t ht]
    decide

theorem putChunks_cases [RowBatches] (h : ¬ Unbuilt chunks) {c : Chunk} (hc : c ∈ chunks) (db : Database) :
    (∃ db', s.putChunks chunks db = (.ok (), db')) ∧ ¬ s.RefusesChunks chunks db ∨
      (∃ f db', s.putChunks chunks db = (.error f, db') ∧ Loses s.chunksTable (chunks.map Chunk.id) db db') ∧
        s.RefusesChunks chunks db := by
  rw [putChunks_eq s h hc]
  rcases replace_cases s.chunksTable (chunks.map Chunk.id) (appendChunks c.vector.length chunks) db with
    ⟨hdone, t, ht, htakes⟩ | ⟨hfails, hno⟩
  · rw [appendChunks_isOk] at htakes
    refine .inl ⟨hdone, ?_⟩
    rintro (hunbuilt | ⟨d, hd, hunfit⟩)
    · exact h hunbuilt
    · exact hunfit t ht (length_eq_of_built h hc hd ▸ htakes)
  · refine .inr ⟨hfails, .inr ⟨c, hc, ?_⟩⟩
    intro t ht
    rw [← appendChunks_isOk, hno t ht]
    decide

end

/-- **Failed puts.** Chunks are refused if no batch can be made of them, as where their vectors have several widths, or
there is no table for them or one for other rows; documents only for the latter. Where no batch can be made, all is
left as it was. Any other refusal has removed the rows that the new ones were to replace, and so it changes nothing
just if there were none. -/
theorem failed_put [RowBatches] (s : TableStore) (db : Database) :
    (∀ chunks, (∃ f, (s.putChunks chunks db).1 = .error f) ↔ s.RefusesChunks chunks db) ∧
    (∀ docs, (∃ f, (s.putDocuments docs db).1 = .error f) ↔ s.RefusesDocuments docs db) ∧
    (∀ chunks, s.RefusesChunks chunks db →
      ((s.putChunks chunks db).2 = db ∨
        Loses s.chunksTable (chunks.map Chunk.id) db (s.putChunks chunks db).2) ∧
      (Same db (s.putChunks chunks db).2 ↔
        Unbuilt chunks ∨ ∀ t, db.table? s.chunksTable = some t → ∀ c ∈ chunks, c.id ∉ t.ids)) ∧
    ∀ docs, s.RefusesDocuments docs db →
      Loses s.documentsTable (docs.map Document.id) db (s.putDocuments docs db).2 ∧
      (Same db (s.putDocuments docs db).2 ↔
        ∀ t, db.table? s.documentsTable = some t → ∀ d ∈ docs, d.id ∉ t.ids) := by
  refine ⟨?_, ?_, ?_, ?_⟩
  · intro chunks
    by_cases hunbuilt : Unbuilt chunks
    · obtain ⟨f, hrun⟩ := putChunks_unbuilt s hunbuilt db
      simp [hrun, RefusesChunks, hunbuilt]
    · cases chunks with
      | nil => simp [putChunks, RefusesChunks, hunbuilt]
      | cons c chunks =>
        rcases putChunks_cases s hunbuilt List.mem_cons_self db with ⟨⟨db', hrun⟩, hno⟩ | ⟨⟨f, db', hrun, -⟩, hyes⟩
        · simp [hrun, hno]
        · simp [hrun, hyes]
  · intro docs
    by_cases hnone : docs = []
    · simp [hnone, putDocuments, RefusesDocuments]
    · rcases putDocuments_cases s hnone db with ⟨⟨db', hrun⟩, hno⟩ | ⟨⟨f, db', hrun, -⟩, hyes⟩
      · simp [hrun, hno]
      · simp [hrun, hyes]
  · intro chunks hrefused
    by_cases hunbuilt : Unbuilt chunks
    · obtain ⟨f, hrun⟩ := putChunks_unbuilt s hunbuilt db
      simp [hrun, hunbuilt, Same]
    · cases chunks with
      | nil => simp [RefusesChunks, hunbuilt] at hrefused
      | cons c chunks =>
        rcases putChunks_cases s hunbuilt List.mem_cons_self db with ⟨-, hno⟩ | ⟨⟨f, db', hrun, hloses⟩, -⟩
        · exact absurd hrefused hno
        · rw [hrun]
          exact ⟨.inr hloses, by simpa [hunbuilt] using hloses.same_iff⟩
  · intro docs hrefused
    rcases putDocuments_cases s hrefused.1 db with ⟨-, hno⟩ | ⟨⟨f, db', hrun, hloses⟩, -⟩
    · exact absurd hrefused hno
    · rw [hrun]
      exact ⟨hloses, by simpa using hloses.same_iff⟩

end TableStore

def Chunk.pointing (id : Nat) (vector : Vector32) : Chunk :=
  ⟨.ofNat id, .ofNat 1, "", "Greeter", none, "class Greeter", 2, vector, false⟩

open TableStore Database in
/-- Wider chunks are refused where none of the rows has their identifiers, and documents where there is no table. -/
theorem failed_put_elsewhere :
    let s : TableStore := ⟨"documents", "chunks"⟩
    let db : Database := [("chunks", .chunks 2 [.pointing 3 [0, 1]])]
    let wider : List Chunk := [.pointing 4 [0, 0, 1], .pointing 5 [0, 1, 0]]
    let docs : List Document := [⟨.ofNat 1, "a.cs", "0", 5⟩]
    (s.RefusesChunks wider db ∧ Same db (s.putChunks wider db).2) ∧
      s.RefusesDocuments docs db ∧ Same db (s.putDocuments docs db).2 := by
  intro s db wider docs
  have hchunks : db.table? s.chunksTable = some (.chunks 2 [.pointing 3 [0, 1]]) := rfl
  have hdocs : db.table? s.documentsTable = none := rfl
  have hrefused : s.RefusesChunks wider db := by
    refine .inr ⟨.pointing 4 [0, 0, 1], List.mem_cons_self, ?_⟩
    rw [hchunks]
    rintro t ⟨⟩
    exact (by decide : ¬ 2 = 3)
  have hrefused' : s.RefusesDocuments docs db := by
    refine ⟨by decide, ?_⟩
    simp [hdocs]
  refine ⟨⟨hrefused, ((failed_put s db).2.2.1 wider hrefused).2.mpr (.inr ?_)⟩, hrefused',
    ((failed_put s db).2.2.2 docs hrefused').2.mpr ?_⟩
  · rw [hchunks]
    rintro t ⟨⟩
    decide
  · simp [hdocs]

open TableStore Database in
/-- A chunk that would replace one of another width is refused, and the other is gone. -/
theorem wider_chunk_removes_row :
    let s : TableStore := ⟨"documents", "chunks"⟩
    let db : Database := [("documents", .documents []), ("chunks", .chunks 2 [.pointing 3 [0, 1]])]
    let after := s.putChunks [.pointing 3 [0, 0, 1]] db
    (∃ f, after.1 = .error f) ∧ s.chunks .all none db = .ok [.pointing 3 [0, 1]] ∧
      s.chunks .all none after.2 = .ok [] ∧ ¬ Same db after.2 := by
  intro s db after
  have hchunks : db.table? s.chunksTable = some (.chunks 2 [.pointing 3 [0, 1]]) := rfl
  have huniform : ¬ Unbuilt [.pointing 3 [0, 0, 1]] := by
    simp [Unbuilt, MixedWidths, RowBatches.refusal?]
  rcases putChunks_cases s huniform List.mem_cons_self db with ⟨-, hno⟩ | ⟨⟨f, db', hrun, hloses⟩, -⟩
  · refine absurd (.inr ⟨_, List.mem_cons_self, ?_⟩) hno
    rw [hchunks]
    rintro t ⟨⟩
    exact (by decide : ¬ 2 = 3)
  · have hafter : after = (.error f, db') := hrun
    have hgone : db'.table? s.chunksTable = some (.chunks 2 []) := by
      simp [hloses.rows, hchunks, Table.without, Table.restrict, Chunk.pointing]
    refine ⟨⟨f, by rw [hafter]⟩, by simp [TableStore.chunks, hchunks, Table.asChunks],
      by simp [hafter, TableStore.chunks, hgone, Table.asChunks], ?_⟩
    intro hsame
    have hrow := hsame s.chunksTable
    simp [hafter, hgone, hchunks] at hrow

end CodeCorpus
