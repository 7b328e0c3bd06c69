import CodeCorpus.Store
import CodeCorpus.Store.Similarity

/-!
# Stores in memory

Documents are kept by identifier, chunks in the order they were added. Every write that changed
something is counted. Search compares the vector with every chunk.
-/

namespace CodeCorpus

structure MemoryStore where
  /-- At most one document for each identifier. -/
  documents : List Document := []
  chunks : List Chunk := []
  /-- The width of vectors that the store was first prepared for. -/
  dimension : Option Nat := none
  /-- The writes that changed something. -/
  mutations : Nat := 0
  /-- Refuse all writing of chunks. -/
  refusesChunks : Bool := false

namespace MemoryStore

/-- The order of documents in answers: by path, then by identifier. -/
def precedes (a b : Document) : Bool :=
  decide (a.path < b.path) || (a.path == b.path && decide (a.id.toNat ≤ b.id.toNat))

/-- The documents with one added in place of the one with its identifier. -/
def insertDocument (docs : List Document) (d : Document) : List Document :=
  (docs.filter fun e => e.id ≠ d.id) ++ [d]

/-- One more write that changed something. -/
def mutated (s : MemoryStore) : MemoryStore := { s with mutations := s.mutations + 1 }

def prepare (dimension : Nat) (s : MemoryStore) : Except Fault Unit × MemoryStore :=
  match s.dimension with
  | some existing =>
    if existing = dimension then (.ok (), s)
    else (.error (.embedding (.dimensionMismatch existing dimension)), s)
  | none => (.ok (), { s with dimension := some dimension })

def selectDocuments (filter : DocumentFilter) (limit : Option Nat) (s : MemoryStore) : List Document :=
  limited limit ((s.documents.filter filter.selects).mergeSort precedes)

def putDocuments (docs : List Document) (s : MemoryStore) : MemoryStore :=
  if docs.isEmpty then s
  else mutated { s with documents := docs.foldl insertDocument s.documents }

def removeDocuments (ids : List Uuid) (s : MemoryStore) : Nat × MemoryStore :=
  let kept := s.documents.filter fun d => !ids.contains d.id
  let removed := s.documents.length - kept.length
  (removed, if removed = 0 then s else mutated { s with documents := kept })

def selectChunks (filter : ChunkFilter) (limit : Option Nat) (s : MemoryStore) : List Chunk :=
  limited limit (s.chunks.filter filter.selects)

def putChunks (chunks : List Chunk) (s : MemoryStore) : Except Fault Unit × MemoryStore :=
  if chunks.isEmpty then (.ok (), s)
  else if s.refusesChunks then (.error (.store (.storeFailed "chunk writes disabled")), s)
  else
    let kept := s.chunks.filter fun c => !(chunks.map Chunk.id).contains c.id
    (.ok (), mutated { s with chunks := kept ++ chunks })

def removeChunks (ids : List Uuid) (s : MemoryStore) : Nat × MemoryStore :=
  let kept := s.chunks.filter fun c => !ids.contains c.id
  let removed := s.chunks.length - kept.length
  (removed, if removed = 0 then s else mutated { s with chunks := kept })

/-- The selected chunks with their scores, the best first, at most `count` of them. -/
def nearest (vector : Vector32) (count : Nat) (filter : ChunkFilter) (s : MemoryStore) :
    List (Chunk × Float32) :=
  (Similarity.bestFirst ((s.chunks.filter filter.selects).map fun c =>
    (c, Similarity.cosine vector c.vector))).take count

def counts (s : MemoryStore) : Counts := ⟨s.documents.length, s.chunks.length⟩

def asStore {ω : Type} (slot : Slot ω MemoryStore) : Store ω :=
  let chunks := fun filter limit => slot.read fun s => .ok (s.selectChunks filter limit)
  let removeChunks := fun ids => slot.run fun s => ((.ok (s.removeChunks ids).1), (s.removeChunks ids).2)
  { prepare := fun dimension => slot.run (prepare dimension)
    documents := fun filter limit => slot.read fun s => .ok (s.selectDocuments filter limit)
    putDocuments := fun docs => slot.run fun s => (.ok (), s.putDocuments docs)
    removeDocuments := fun ids =>
      slot.run fun s => ((.ok (s.removeDocuments ids).1), (s.removeDocuments ids).2)
    chunks
    putChunks := fun cs => slot.run (putChunks cs)
    removeChunks
    removeChunksOf := Store.removeChunksByReading chunks removeChunks
    nearest := fun vector count filter => slot.read fun s => .ok (s.nearest vector count filter)
    counts := slot.read fun s => .ok s.counts
    flush := pure () }

end MemoryStore

end CodeCorpus
