import CodeCorpus.Config
import CodeCorpus.Counter.Tokenizer
import CodeCorpus.Search
import CodeCorpus.Store.Table
import CodeCorpus.Sync.Directory

/-!
# Clients

A client puts the parts together as the configuration says: it brings its store in line with a directory,
removes documents, searches and counts.
-/

namespace CodeCorpus

structure Disk (ω : Type) where
  /-- The absolute path without links that a path leads to. -/
  canonical : String → ω → Except FileFault String
  /-- The files that a walker lists. -/
  files : Walker → Files ω

/-- The counter that the configuration asks for, given the bytes of the vocabulary's file. -/
def TokenizerSettings.counter (s : TokenizerSettings) (contents : Option ByteArray) :
    Except Fault Counter :=
  Counter.ofFile s.vocabulary contents s.prompt s.countsSpecial

def SourceSettings.walker (s : SourceSettings) (root : String) : Except Fault Walker :=
  Walker.make? root s.maxFileSize s.pattern s.excluded

/-- The tables that the configuration asks for, unless it asks for a server. -/
def StoreSettings.tables (s : StoreSettings) : Except Fault TableStore :=
  if s.backend = "qdrant" then
    .error (.text "The qdrant backend requires building with the 'qdrant-backend' feature")
  else .ok ⟨s.documentsTable, s.chunksTable⟩

structure Client (ω : Type) where
  config : Config
  env : Conditions ω
  disk : Disk ω
  store : Store ω
  chunker : Chunker ω

namespace Client

variable {ω : Type}

/-- A client, unless its token budget is zero. -/
def make? (config : Config) (env : Conditions ω) (disk : Disk ω) (store : Store ω) (count : Counter)
    (provider : Provider ω) : Except Fault (Client ω) :=
  (Chunker.make? count provider config.chunking.budget config.chunking.overlap
    config.embedding.timeout config.tokenizer.prompt).map fun chunker =>
      { config, env, disk, store, chunker }

def sync (c : Client ω) : Sync ω := ⟨c.store, c.env⟩

def dimension (c : Client ω) : Nat := c.chunker.provider.dimension

/-- The absolute path of a root without links. -/
def normalizeRoot (disk : Disk ω) (root : String) (w : ω) : Except Fault String :=
  match disk.canonical root w with
  | .ok path => .ok path
  | .error _ => .error (.input (.pathNotFound root))

def source (c : Client ω) (root : String) (w : ω) : Except Fault (Source ω) := do
  let root ← normalizeRoot c.disk root w
  let walker ← c.config.source.walker root
  return Source.ofFiles c.env (c.disk.files walker) c.chunker

/-- Brings the store in line with the files below a root. -/
def ingest (c : Client ω) (root : String) : Action ω Run := fun w =>
  match c.source root w with
  | .ok source => c.sync.ingest source w
  | .error f => (.error f, w)

/-- Removes the documents at a path below the root, and tells how many there were. -/
def deleteDocument (c : Client ω) (path : String) : Action ω Nat :=
  if Text.isBlankText path then .fail (.input (.empty "relative path"))
  else do
    let removed ← c.sync.removeAtPath (Path.normalize path)
    c.store.flush
    return removed

/-- The best results for a query, as many as configured unless a limit is given. -/
def search (c : Client ω) (query : String) (part : Option String) (limit : Option Nat) :
    Action ω (List SearchResult) :=
  let s : Search ω := {
    store := c.store
    provider := c.chunker.provider
    timeout := c.config.embedding.timeout
    minScore := c.config.search.minScore }
  s.run query part (limit.getD c.config.search.limit)

def statistics (c : Client ω) : Action ω Counts := c.store.counts.within "Failed to get statistics"

end Client

end CodeCorpus
