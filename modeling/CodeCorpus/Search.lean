import CodeCorpus.Embedding
import CodeCorpus.Store
import CodeCorpus.Text.Blank

/-!
# Search

A query is embedded and compared with the stored chunks. A document filter restricts the search to the
chunks of documents whose path contains a text; one that fits no document gives no results.
-/

namespace CodeCorpus

/-- A chunk found by a search. -/
structure SearchResult where
  /-- The path of the chunk's document, empty if that is not stored. -/
  path : String
  chunk : Chunk
  score : Float32

structure Search (ω : Type) where
  store : Store ω
  provider : Provider ω
  /-- The time limit for embedding the query, in seconds. -/
  timeout : Nat
  /-- Results below this score are dropped. -/
  minScore : Float32 := 0

namespace Search

variable {ω : Type}

/-- The path of a document among those given, empty if it is not among them. -/
def pathOf (docs : List Document) (id : Uuid) : String :=
  ((docs.reverse.find? fun d => d.id == id).map Document.path).getD ""

/-- The results for the chunks found, less those below the least score. -/
def results (minScore : Float32) (docs : List Document) (hits : List (Chunk × Float32)) :
    List SearchResult :=
  (hits.filter fun h => minScore ≤ h.2).map fun h => ⟨pathOf docs h.1.owner, h.1, h.2⟩

def documentFilter : Option String → DocumentFilter
  | some part => .containing part
  | none => .all

/-- The chunks that a search is about, given the documents. -/
def chunkFilter (part : Option String) (docs : List Document) : ChunkFilter :=
  if part.isSome then .ownedBy (docs.map Document.id) else .all

/-- The best results for a query, at most `limit` of them, the best first. -/
def run (s : Search ω) (query : String) (part : Option String) (limit : Nat) :
    Action ω (List SearchResult) :=
  if Text.isBlankText query then .fail (.input (.empty "query"))
  else if limit = 0 then pure []
  else do
    let docs ← (s.store.documents (documentFilter part) none).within "Failed to resolve document filter"
    if part.isSome && docs.isEmpty then return []
    let vector ← (s.provider.embed s.timeout query).within "Failed to generate query embedding"
    let hits ← (s.store.nearest vector limit (chunkFilter part docs)).within "Failed to search"
    return results s.minScore docs hits

end Search

end CodeCorpus
