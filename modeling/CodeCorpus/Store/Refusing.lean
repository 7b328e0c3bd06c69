import CodeCorpus.Store

/-!
# Stores that refuse operations

A store can be wrapped so that chosen operations fail before they reach it. The chunks of documents are
removed by reading and removing them one by one, so that refusing either refuses this too.
-/

namespace CodeCorpus

/-- The operations that can be refused. -/
inductive StoreOperation where
  | prepare
  | documents
  /-- Only the reading of documents at an exact path. -/
  | documentsAtPath
  | putDocuments
  | removeDocuments
  | chunks
  | putChunks
  | removeChunks
  | nearest
  | counts
  | flush
  deriving DecidableEq, Repr

def StoreOperation.name : StoreOperation → String
  | .prepare => "ensure_exists"
  | .documents => "get_documents"
  | .documentsAtPath => "get_documents_by_path"
  | .putDocuments => "upsert_documents"
  | .removeDocuments => "delete_documents"
  | .chunks => "get_chunks"
  | .putChunks => "upsert_chunks"
  | .removeChunks => "delete_chunks"
  | .nearest => "search_chunks"
  | .counts => "statistics"
  | .flush => "flush"

def StoreOperation.all : List StoreOperation := [.prepare, .documents, .documentsAtPath, .putDocuments,
  .removeDocuments, .chunks, .putChunks, .removeChunks, .nearest, .counts, .flush]

namespace Store

variable {ω α : Type}

/-- An action that fails if its operation is refused. -/
def unlessRefused (refused : ω → List StoreOperation) (op : StoreOperation) (x : Action ω α) :
    Action ω α := fun w =>
  if (refused w).contains op then (.error (.text s!"{op.name} refused"), w) else x w

def refusing (refused : ω → List StoreOperation) (s : Store ω) : Store ω :=
  let chunks := fun filter limit => unlessRefused refused .chunks (s.chunks filter limit)
  let removeChunks := fun ids => unlessRefused refused .removeChunks (s.removeChunks ids)
  { prepare := fun dimension => unlessRefused refused .prepare (s.prepare dimension)
    documents := fun filter limit =>
      let read := unlessRefused refused .documents (s.documents filter limit)
      match filter with
      | .atPath _ => unlessRefused refused .documentsAtPath read
      | _ => read
    putDocuments := fun docs => unlessRefused refused .putDocuments (s.putDocuments docs)
    removeDocuments := fun ids => unlessRefused refused .removeDocuments (s.removeDocuments ids)
    chunks
    putChunks := fun cs => unlessRefused refused .putChunks (s.putChunks cs)
    removeChunks
    removeChunksOf := removeChunksByReading chunks removeChunks
    nearest := fun vector count filter => unlessRefused refused .nearest (s.nearest vector count filter)
    counts := unlessRefused refused .counts s.counts
    flush := unlessRefused refused .flush s.flush }

end Store

end CodeCorpus
