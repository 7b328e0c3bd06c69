import CodeCorpus.Store
import CodeCorpus.Store.Condition
import CodeCorpus.Store.Similarity

/-!
# Stores in tables

Documents and chunks are the rows of two named tables of a database. Rows are replaced by deleting those
with the same identifiers and appending the new ones, and identifiers are looked up in batches. A table
holds rows of one kind; what a table of the wrong kind answers depends on the column asked for.
-/

namespace CodeCorpus

/-- The rows of a table: documents, or chunks with vectors of one width. -/
inductive Table where
  | documents (rows : List Document)
  | chunks (width : Nat) (rows : List Chunk)

abbrev Database := List (String × Table)

def Document.column? (d : Document) : String → Option String
  | "id" => some d.id.toText
  | "relative_path" => some d.path
  | "content_hash" => some d.digest
  | _ => none

def Chunk.column? (c : Chunk) : String → Option String
  | "id" => some c.id.toText
  | "document_id" => some c.owner.toText
  | "namespace" => some c.namespaceName
  | "type_name" => some c.typeName
  | "method_name" => c.memberName
  | "snippet" => some c.snippet
  | _ => none

def Condition.holds (c : Condition) (column? : String → Option String) : Bool :=
  ((column? c.column).map c.values.contains).getD false

namespace Table

def textColumns : Table → List String
  | .documents _ => ["id", "relative_path", "content_hash"]
  | .chunks _ _ => ["id", "document_id", "namespace", "type_name", "method_name", "snippet"]

def rowCount : Table → Nat
  | .documents rows => rows.length
  | .chunks _ rows => rows.length

/-- The rows for which `keep` holds of their columns. -/
def restrict (keep : (String → Option String) → Bool) : Table → Table
  | .documents rows => .documents (rows.filter fun d => keep d.column?)
  | .chunks width rows => .chunks width (rows.filter fun c => keep c.column?)

/-- The condition that a text writes, if it asks for a column of the table. -/
def condition? (t : Table) (text : String) : Except String Condition :=
  match Condition.read? text with
  | some c =>
    if t.textColumns.contains c.column then .ok c else .error s!"no column '{c.column}'"
  | none => .error s!"no condition: {text}"

def select (t : Table) (text : String) : Except String Table :=
  (t.condition? text).map fun c => t.restrict c.holds

/-- The rows that a written condition does not select. -/
def delete (t : Table) (text : String) : Except String Table :=
  (t.condition? text).map fun c => t.restrict fun column? => !c.holds column?

/-- The first rows. -/
def take (n : Nat) : Table → Table
  | .documents rows => .documents (rows.take n)
  | .chunks width rows => .chunks width (rows.take n)

/-- The rows as documents; a table of another kind lacks their columns as soon as it has rows. -/
def asDocuments : Table → Except Fault (List Document)
  | .documents rows => .ok rows
  | .chunks _ [] => .ok []
  | .chunks _ _ => .error (.text "Missing relative_path column")

/-- The rows as chunks; a table of another kind lacks their columns as soon as it has rows. -/
def asChunks : Table → Except Fault (List Chunk)
  | .chunks _ rows => .ok rows
  | .documents [] => .ok []
  | .documents _ => .error (.text "Missing vector column")

end Table

namespace Database

/-- The number of identifiers in one condition. -/
def batchSize : Nat := 256

/-- Items in batches of at most `size`. -/
def batches (size : Nat) (xs : List α) : List (List α) :=
  match xs with
  | [] => []
  | x :: rest =>
    if size = 0 then [x :: rest] else (x :: rest).take size :: batches size ((x :: rest).drop size)
termination_by xs.length
decreasing_by simp only [List.length_drop, List.length_cons]; omega

def table? (db : Database) (name : String) : Option Table :=
  (db.find? fun t => t.1 == name).map Prod.snd

/-- The database with a table in place of the one with its name. -/
def setTable (db : Database) (name : String) (t : Table) : Database :=
  db.map fun e => if e.1 == name then (name, t) else e

/-- The database with an empty table, unless there is one of its name. -/
def create (db : Database) (name : String) (empty : Table) : Database :=
  if (db.table? name).isSome then db else db ++ [(name, empty)]

/-- Deletes the rows of a table with one of the identifiers in a column, batch by batch, and tells how
many there were. A missing table has none. -/
def deleteIn (name column : String) (ids : List Uuid) (db : Database) : Except Fault Nat × Database :=
  if ids.isEmpty then (.ok 0, db)
  else
    match db.table? name with
    | none => (.ok 0, db)
    | some t =>
      let step (t : Except String Table) (batch : List Uuid) : Except String Table :=
        t.bind fun t => t.delete (Condition.isOneOf column (batch.map Uuid.toText))
      match (batches batchSize ids).foldl step (.ok t) with
      | .ok after => (.ok (t.rowCount - after.rowCount), db.setTable name after)
      | .error reason => (.error (.store (.deleteFailed reason)), db)

def append (name : String) (add : Table → Except String Table) (db : Database) :
    Except Fault Unit × Database :=
  match db.table? name with
  | none => (.error ((Fault.store (.tableNotFound name)).within s!"Failed to open table '{name}'"), db)
  | some t =>
    match add t with
    | .ok after => (.ok (), db.setTable name after)
    | .error reason => (.error (.store (.storeFailed reason)), db)

def appendDocuments (docs : List Document) : Table → Except String Table
  | .documents rows => .ok (.documents (rows ++ docs))
  | .chunks _ _ => .error "the table does not hold documents"

/-- The width that a table of vectors is created with for a claimed one: it is kept in 32 bits with a sign,
and read back in 64. -/
def createdWidth (dimension : Nat) : Nat := ((BitVec.ofNat 32 dimension).signExtend 64).toNat

/-- A chunk as a row holds it: its tokens in 32 bits. -/
def asRow (c : Chunk) : Chunk := { c with tokens := c.tokens % UInt32.size }

def appendChunks (width : Nat) (chunks : List Chunk) : Table → Except String Table
  | .chunks own rows =>
    if own = width then .ok (.chunks own (rows ++ chunks.map asRow))
    else .error s!"the table holds vectors of width {own}, not {width}"
  | .documents _ => .error "the table does not hold chunks"

end Database

/-- What makes a batch of the rows for chunks. It may refuse to, for a reason that it tells. -/
class RowBatches where
  refusal? : List Chunk → Option String

instance anyBatch : RowBatches := ⟨fun _ => none⟩

structure TableStore where
  documentsTable : String
  chunksTable : String

namespace TableStore

open Database

/-- Creates the missing tables. The chunks must have the width that their table was created with. -/
def prepare (s : TableStore) (dimension : Nat) (db : Database) : Except Fault Unit × Database :=
  let db := (db.create s.documentsTable (.documents [])).create s.chunksTable
    (.chunks (createdWidth dimension) [])
  match db.table? s.chunksTable with
  | some (.chunks width _) =>
    if width = dimension then (.ok (), db)
    else (.error ((Fault.embedding (.dimensionMismatch width dimension)).within
      s!"Table '{s.chunksTable}' was created for another embedding model"), db)
  | _ => (.ok (), db)

/-- Documents in the order they were added. An exact path is selected by the table itself. -/
def documents (s : TableStore) (filter : DocumentFilter) (limit : Option Nat) (db : Database) :
    Except Fault (List Document) :=
  match db.table? s.documentsTable with
  | none => .ok []
  | some t =>
    let selected : Except String Table := match filter with
      | .atPath path => t.select (Condition.equals "relative_path" path)
      | _ => .ok t
    match selected with
    | .error reason => .error (.store (.queryFailed reason))
    | .ok t =>
      let t := match filter, limit with
        | .containing _, _ | _, none => t
        | _, some n => t.take n
      t.asDocuments.map fun docs => limited limit (docs.filter filter.selects)

def putDocuments (s : TableStore) (docs : List Document) (db : Database) :
    Except Fault Unit × Database :=
  if docs.isEmpty then (.ok (), db)
  else
    match deleteIn s.documentsTable "id" (docs.map Document.id) db with
    | (.error f, db) => (.error f, db)
    | (.ok _, db) => append s.documentsTable (appendDocuments docs) db

def removeDocuments (s : TableStore) (ids : List Uuid) (db : Database) : Except Fault Nat × Database :=
  deleteIn s.documentsTable "id" ids db

/-- The chunks that each batch of identifiers selects, one batch after the other. -/
def chunksOfBatches (t : Table) (limit : Option Nat) : List (List Uuid) → Except Fault (List Chunk)
  | [] => .ok []
  | batch :: others =>
    match t.select (Condition.isOneOf "document_id" (batch.map Uuid.toText)) with
    | .error reason => .error (.store (.queryFailed reason))
    | .ok selected => do
      let here ← (match limit with | some n => selected.take n | none => selected).asChunks
      let rest ← chunksOfBatches t limit others
      return here ++ rest

/-- Chunks in the order they were added, or, when they are selected by documents, batch by batch. -/
def chunks (s : TableStore) (filter : ChunkFilter) (limit : Option Nat) (db : Database) :
    Except Fault (List Chunk) :=
  match db.table? s.chunksTable with
  | none => .ok []
  | some t =>
    match filter with
    | .all => (match limit with | some n => t.take n | none => t).asChunks
    | .ownedBy ids => (chunksOfBatches t limit (batches batchSize ids)).map (limited limit)

/-- All vectors of one call must have the width of the first. The batch is made before any row is removed. -/
def putChunks [RowBatches] (s : TableStore) (chunks : List Chunk) (db : Database) : Except Fault Unit × Database :=
  match chunks with
  | [] => (.ok (), db)
  | first :: _ =>
    let width := first.vector.length
    match chunks.find? fun c => c.vector.length ≠ width with
    | some odd => (.error (.embedding (.dimensionMismatch width odd.vector.length)), db)
    | none =>
      match RowBatches.refusal? chunks with
      | some reason => (.error ((Fault.text reason).within "Failed to create chunk RecordBatch"), db)
      | none =>
        match deleteIn s.chunksTable "id" (chunks.map Chunk.id) db with
        | (.error f, db) => (.error f, db)
        | (.ok _, db) => append s.chunksTable (appendChunks width chunks) db

def removeChunks (s : TableStore) (ids : List Uuid) (db : Database) : Except Fault Nat × Database :=
  deleteIn s.chunksTable "id" ids db

def removeChunksOf (s : TableStore) (ids : List Uuid) (db : Database) : Except Fault Nat × Database :=
  deleteIn s.chunksTable "document_id" ids db

/-- The score that a table gives: one less the distance, which is one less the similarity. -/
def score (a b : Vector32) : Float32 := 1 - (1 - Similarity.cosine a b)

def nearest (s : TableStore) (vector : Vector32) (count : Nat) (filter : ChunkFilter) (db : Database) :
    Except Fault (List (Chunk × Float32)) :=
  match db.table? s.chunksTable with
  | none => .ok []
  | some t =>
    if filter = .ownedBy [] then .ok []
    else
      match t with
      | .documents _ => .error (.store (.searchFailed "the table has no vectors"))
      | .chunks width rows =>
        if count = 0 then .error (.store (.searchFailed "no results were asked for"))
        else if vector.length ≠ width ∨ vector.isEmpty then
          .error (.store (.searchFailed s!"the vectors have width {width}, not {vector.length}"))
        else .ok ((Similarity.bestFirst ((rows.filter filter.selects).map fun c =>
          (c, score vector c.vector))).take count)

def counts (s : TableStore) (db : Database) : Counts :=
  ⟨((db.table? s.documentsTable).map Table.rowCount).getD 0,
    ((db.table? s.chunksTable).map Table.rowCount).getD 0⟩

def asStore [RowBatches] {ω : Type} (s : TableStore) (slot : Slot ω Database) : Store ω :=
  { prepare := fun dimension => slot.run (s.prepare dimension)
    documents := fun filter limit => slot.read (s.documents filter limit)
    putDocuments := fun docs => slot.run (s.putDocuments docs)
    removeDocuments := fun ids => slot.run (s.removeDocuments ids)
    chunks := fun filter limit => slot.read (s.chunks filter limit)
    putChunks := fun cs => slot.run (s.putChunks cs)
    removeChunks := fun ids => slot.run (s.removeChunks ids)
    removeChunksOf := fun ids => slot.run (s.removeChunksOf ids)
    nearest := fun vector count filter => slot.read (s.nearest vector count filter)
    counts := slot.read fun db => .ok (s.counts db)
    flush := pure () }

end TableStore

end CodeCorpus
