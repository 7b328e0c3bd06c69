import CodeCorpus.CommandLine.Help
import CodeCorpus.CommandLine.Request
import CodeCorpus.CommandLine.Shown
import CodeCorpus.Config.Loading
import CodeCorpus.Embedding.Model
import CodeCorpus.Session

/-!
# The command line

A request is answered with text on the two outputs and an exit status. The configuration is loaded first,
whatever the command; a command that embeds texts then needs the vocabulary, the model and the store, in
this order.
-/

namespace CodeCorpus.CommandLine

structure Outcome where
  status : Nat
  output : String := ""
  errors : String := ""
  deriving DecidableEq, Repr

abbrev Models := EmbeddingModel → Except Fault (Provider Session)

/-! ## Parts -/

/-- The path of a document as it is stored: below the root, if it is given as an absolute path. -/
def relativeToRoot (disk : Disk ω) (root path : String) (w : ω) : Except Fault String := do
  if !Path.isAbsolute path then return Path.normalize path
  let root ← Client.normalizeRoot disk root w
  match Path.below? root path with
  | some rest => return Path.normalize rest
  | none => .error ((Fault.text "prefix not found").within s!"{path} is not inside {root}")

def openStore (c : Config) : Except Fault (Store Session) :=
  c.store.tables.map (Session.tableStore c.store.database)

def openModel (models : Models) (c : Config) : Except Fault (Provider Session) := do
  let model ← EmbeddingModel.resolve c.embedding.model
  models model

def openClient (models : Models) (c : Config) (s : Session) : Except Fault (Client Session) := do
  let contents := s.tree.bytes? s.directory c.tokenizer.vocabulary
  let counter ← Except.within "Failed to load tokenizer vocabulary" (c.tokenizer.counter contents)
  let provider ← Except.within "Failed to initialize embedding provider" (openModel models c)
  let store ← openStore c
  Client.make? c Session.conditions Session.disk store counter provider

/-! ## Commands -/

def showReport (asJson : Bool) (r : Report) : String :=
  if asJson then asLine r.toJson.pretty else r.text

def showResults (asJson : Bool) (rs : List SearchResult) : String :=
  if asJson then asLine (Json.array (rs.map SearchResult.toJson)).pretty else SearchResult.textOfAll rs

def execute (models : Models) (c : Config) : Command → Action Session String
  | .ingest root asJson => do
    let client ← fun s => (openClient models c s, s)
    let run ← client.ingest root
    return showReport asJson run.report
  | .delete root path => do
    let path ← fun s => (relativeToRoot Session.disk root path s, s)
    let store ← Action.ofExcept (openStore c)
    let removed ← Sync.removeAtPath ⟨store, Session.conditions⟩ path
    store.flush
    return asLine s!"Removed {removed} document record(s) for {path}"
  | .search query part limit asJson => do
    let client ← fun s => (openClient models c s, s)
    let results ← client.search query part limit
    return showResults asJson results
  | .stats => do
    let store ← Action.ofExcept (openStore c)
    let counts ← store.counts
    return counts.text
  | .config =>
    match c.write with
    | .ok s => pure s
    | .error reason => .fail ((Fault.text reason).within "Failed to serialize configuration")

def perform (models : Models) (env : Environment) (config : Option String) (command : Command) :
    Action Session String := do
  let c ← fun s =>
    ((Config.load env config (s.tree.read s.directory)).mapError fun f => .ofNamedPart (.config f), s)
  execute models c command

def run (models : Models) (env : Environment) (args : List String) (s : Session) : Outcome × Session :=
  match Request.read env args with
  | .help verb => ({ status := 0, output := help env verb }, s)
  | .version => ({ status := 0, output := asLine s!"{programName} {programVersion}" }, s)
  | .refused => ({ status := 2, errors := asLine s!"error: bad usage of {programName}" }, s)
  | .run config command =>
    match perform models env config command s with
    | (.ok output, s) => ({ status := 0, output }, s)
    | (.error f, s) => ({ status := f.exitStatus, errors := asLine s!"Error: {f.message}" }, s)

end CodeCorpus.CommandLine
