import CodeCorpus.Directories
import CodeCorpus.Fault
import CodeCorpus.Glob.Reading
import CodeCorpus.Numeral.Shortest
import CodeCorpus.Text.Blank

/-!
# Configuration

What can be configured, the defaults, and which values are refused. Of several values that are refused,
the first in the order of the sections is told.
-/

namespace CodeCorpus

structure StoreSettings where
  /-- The kind of store: `lancedb` or `qdrant`. -/
  backend : String
  /-- The directory of the database. -/
  database : String
  /-- The address of the server, for a store that has one. -/
  server : String
  documentsTable : String
  chunksTable : String
  deriving DecidableEq, Repr

structure EmbeddingSettings where
  model : String
  /-- The time limit for one text, in seconds. -/
  timeout : Nat
  deriving DecidableEq, Repr

structure TokenizerSettings where
  /-- The file of the vocabulary. -/
  vocabulary : String
  /-- What stands before each text that the model receives; it counts against the budget. -/
  prompt : String
  /-- Whether special tokens count against the budget. -/
  countsSpecial : Bool
  deriving DecidableEq, Repr

structure ChunkingSettings where
  /-- The token budget of a window. -/
  budget : Nat
  /-- The lines that a window repeats from the one before. -/
  overlap : Nat
  deriving DecidableEq, Repr

/-- Which files belong to a corpus. -/
structure SourceSettings where
  /-- The pattern for the paths below the root. -/
  pattern : String
  /-- Texts that may not occur in the full path. -/
  excluded : List String
  maxFileSize : Nat
  deriving DecidableEq, Repr

structure SearchSettings where
  minScore : Float32
  limit : Nat

structure Config where
  store : StoreSettings
  embedding : EmbeddingSettings
  tokenizer : TokenizerSettings
  chunking : ChunkingSettings
  source : SourceSettings
  search : SearchSettings

namespace Config

/-- The configuration where nothing is configured. -/
def defaults (d : Directories) : Config :=
  { store := {
      backend := "lancedb"
      database := d.database
      server := "http://localhost:6334"
      documentsTable := "csharp_documents"
      chunksTable := "csharp_chunks" }
    embedding := { model := "nomic-embed-text-v1.5", timeout := 30 }
    tokenizer := { vocabulary := d.vocabulary, prompt := "", countsSpecial := true }
    chunking := { budget := 256, overlap := 5 }
    source := {
      pattern := "**/*.cs"
      excluded := [".g.cs", "/obj/", "/AssemblyInfo.cs", "/packages/"]
      maxFileSize := 1048576 }
    search := { minScore := 0, limit := 10 } }

/-! ## Refused values -/

/-- Refuses a value for a reason, if a condition holds. -/
def refuseIf (condition : Bool) (key reason : String) : Except ConfigFault Unit :=
  if condition then .error (.invalidValue key reason) else .ok ()

def mustNotBeEmpty : String := "must not be empty"

def mustBePositive : String := "must be greater than 0"

/-- Refuses a text that is no pattern. -/
def checkPattern (key pattern : String) : Except ConfigFault Unit :=
  match Glob.read false pattern with
  | .ok _ => .ok ()
  | .error f => .error (.invalidValue key (Glob.faultMessage pattern f))

/-- Refuses a configuration with the first value that is not allowed. -/
def validate (c : Config) : Except ConfigFault Unit := do
  refuseIf (c.store.backend != "lancedb" && c.store.backend != "qdrant") "vector_db.backend"
    s!"must be 'lancedb' or 'qdrant', got '{c.store.backend}'"
  refuseIf (Text.isBlankText c.store.documentsTable) "vector_db.documents_collection" mustNotBeEmpty
  refuseIf (Text.isBlankText c.store.chunksTable) "vector_db.chunks_collection" mustNotBeEmpty
  refuseIf (c.store.documentsTable == c.store.chunksTable) "vector_db.chunks_collection"
    "must differ from vector_db.documents_collection"
  refuseIf (c.embedding.timeout == 0) "embedding.timeout_secs" mustBePositive
  refuseIf (c.chunking.budget == 0) "chunking.max_tokens" mustBePositive
  refuseIf (Text.isBlankText c.source.pattern) "source.include_pattern" mustNotBeEmpty
  checkPattern "source.include_pattern" c.source.pattern
  refuseIf (c.source.maxFileSize == 0) "source.max_file_size" mustBePositive
  refuseIf (!(0 ≤ c.search.minScore && c.search.minScore ≤ 1)) "search.min_score"
    s!"must be between 0.0 and 1.0, got {Numeral.text32 c.search.minScore}"
  refuseIf (c.search.limit == 0) "search.limit" mustBePositive

end Config

end CodeCorpus
