import CodeCorpus.Proofs.Tables

/-!
# What a written condition selects

A text reaches a table inside a literal, and a literal is read as a text just if it is that text quoted. So a
condition asks for what it was written with, whatever quotes a path holds: it selects the rows whose column is the
path, or one of the identifiers, and no others.
-/

namespace CodeCorpus

namespace Table

theorem named_eq_any (column : String) (ids : List Uuid) (column? : String → Option String) :
    named column ids column? = ids.any fun id => column? column == some id.toText := by
  unfold named Condition.holds
  cases column? column with
  | none => simp
  | some value =>
    rw [Option.map_some, Option.getD_some, List.contains_eq_any_beq, List.any_map]
    rfl

end Table

namespace TableStore

open Condition

theorem documents_atPath {s : TableStore} {db : Database} {docs : List Document}
    (hdocs : db.table? s.documentsTable = some (.documents docs)) (path : String) (limit : Option Nat) :
    s.documents (.atPath path) limit db =
      .ok (limited limit (docs.filter (DocumentFilter.atPath path).selects)) := by
  unfold TableStore.documents
  simp only [hdocs, Table.select_atPath]
  cases limit with
  | none => simp [Table.asDocuments, Except.map, List.filter_filter]
  | some n =>
    -- the limit is the table's own, and the path is compared once more after it
    have hkept : ((docs.filter (DocumentFilter.atPath path).selects).take n).filter
        (DocumentFilter.atPath path).selects = (docs.filter (DocumentFilter.atPath path).selects).take n := by
      rw [List.filter_eq_self]
      intro d hd
      exact (List.mem_filter.mp (List.mem_of_mem_take hd)).2
    simp [Table.asDocuments, Table.take, Except.map, limited, hkept, List.take_take]

/-- **Quoted conditions are exact.** A text begins with a literal that is read as `value`, with `rest` behind it, just
if it is `value` quoted and then `rest`, and `rest` does not go on with a quote. So the condition on a path is read to
its end as a comparison with this path, and selects the documents at it, before any limit. The condition on
identifiers, one at least, selects the rows whose column is one of them and deletes no others. -/
theorem quoted_conditions_exact {s : TableStore} {db : Database} {docs : List Document}
    (hdocs : db.table? s.documentsTable = some (.documents docs)) {t : Table} {column : String}
    (hcolumn : column ∈ t.textColumns) {ids : List Uuid} (hids : ids ≠ []) :
    (∀ text value rest : String, readLiteral text.toList = some (value.toList, rest.toList) ↔
      text = quote value ++ rest ∧ rest.toList.head? ≠ some '\x27') ∧
    (∀ path, read? (equals "relative_path" path) = some ⟨"relative_path", [path]⟩ ∧
      (Table.documents docs).select (equals "relative_path" path) =
        .ok (.documents (docs.filter fun d => d.path == path)) ∧
      ∀ limit, s.documents (.atPath path) limit db = .ok (limited limit (docs.filter fun d => d.path == path))) ∧
    t.select (isOneOf column (ids.map Uuid.toText)) =
      .ok (t.restrict fun column? => ids.any fun id => column? column == some id.toText) ∧
    t.delete (isOneOf column (ids.map Uuid.toText)) =
      .ok (t.restrict fun column? => !ids.any fun id => column? column == some id.toText) := by
  refine ⟨?_, ?_, ?_, ?_⟩
  · intro text value rest
    rw [readLiteral_eq_some_iff, ← String.toList_inj, String.toList_append, toList_quote]
  · intro path
    exact ⟨read?_equals (by decide) path, Table.select_atPath docs path, documents_atPath hdocs path⟩
  · simp only [Table.select_isOneOf t column hcolumn hids, ← Table.named_eq_any]
  · simp only [Table.delete_isOneOf hcolumn hids, ← Table.named_eq_any]

end TableStore

open TableStore Condition in
/-- A path that would end its literal and add a comparison that always holds selects its own document only. -/
theorem quoted_conditions_exact_quotes :
    let s : TableStore := ⟨"documents", "chunks"⟩
    let path := "x\x27 OR \x27\x27=\x27"
    let docs : List Document := [⟨.ofNat 1, "a.cs", "0", 5⟩, ⟨.ofNat 2, path, "0", 5⟩]
    let db : Database := [("documents", .documents docs)]
    let t : Table := .documents docs
    db.table? s.documentsTable = some (.documents docs) ∧ "id" ∈ t.textColumns ∧ [Uuid.ofNat 1] ≠ [] ∧
      s.documents (.atPath path) (some 1) db = .ok [⟨.ofNat 2, path, "0", 5⟩] ∧
      t.delete (isOneOf "id" [(Uuid.ofNat 1).toText]) = .ok (.documents [⟨.ofNat 2, path, "0", 5⟩]) := by
  intro s path docs db t
  have hdocs : db.table? s.documentsTable = some (.documents docs) := rfl
  have hcolumn : "id" ∈ t.textColumns := List.mem_cons_self
  obtain ⟨-, hpath, -, hdelete⟩ := quoted_conditions_exact hdocs hcolumn (List.cons_ne_nil (Uuid.ofNat 1) [])
  refine ⟨hdocs, hcolumn, List.cons_ne_nil _ _, ?_, ?_⟩
  · rw [(hpath path).2.2]
    rfl
  · have hother : (Uuid.ofNat 2).toText ≠ (Uuid.ofNat 1).toText := fun h => absurd (Uuid.toText_injective h) (by decide)
    rw [List.map_cons, List.map_nil] at hdelete
    rw [hdelete]
    simp [t, docs, Table.restrict, Document.column?, hother]

end CodeCorpus
