import CodeCorpus.Numeral.Reading

/-!
# Verbs

What the command line can be asked to do: each verb has parameters, which come in order, and flags, which
come by name, some of them with a value.
-/

namespace CodeCorpus.CommandLine

/-- What comes in order. -/
structure Parameter where
  name : String
  about : String := ""
  /-- Which texts may stand for it. -/
  accepts : String → Bool := fun _ => true

structure Flag where
  name : String
  about : String
  /-- What its value is called, if it has one. -/
  value : Option String := none
  /-- Which texts may be its value. -/
  accepts : String → Bool := fun _ => true

def isPath (s : String) : Bool := !s.isEmpty

inductive Verb where
  | ingest
  | delete
  | search
  | stats
  | config
  deriving DecidableEq, Repr

namespace Verb

def all : List Verb := [.ingest, .delete, .search, .stats, .config]

def name : Verb → String
  | .ingest => "ingest"
  | .delete => "delete"
  | .search => "search"
  | .stats => "stats"
  | .config => "config"

/-- The verb of a name. -/
def named? (s : String) : Option Verb := all.find? fun v => v.name == s

def about : Verb → String
  | .ingest => "Synchronize the store with the C# files under ROOT"
  | .delete => "Remove one document and its chunks"
  | .search => "Search ingested chunks"
  | .stats => "Show document and chunk counts"
  | .config => "Print the effective configuration"

def parameters : Verb → List Parameter
  | .ingest => [{ name := "ROOT", accepts := isPath }]
  | .delete => [
    { name := "ROOT", accepts := isPath },
    { name := "RELATIVE_PATH", about := "Path relative to ROOT, or an absolute path inside it" }]
  | .search => [{ name := "QUERY" }]
  | .stats | .config => []

def flags : Verb → List Flag
  | .ingest => [{ name := "json", about := "Print the final report as JSON" }]
  | .search => [
    { name := "document", value := some "DOCUMENT"
      about := "Only documents whose relative path contains this text" },
    { name := "limit", value := some "LIMIT", about := "Maximum number of results"
      accepts := fun s => (Numeral.readNatural? s).isSome },
    { name := "json", about := "Print results as JSON" }]
  | .delete | .stats | .config => []

end Verb

/-- The flag of every verb, which may also stand before the verb. -/
def configFlag : Flag :=
  { name := "config", value := some "CONFIG", about := "Path to configuration file (TOML)"
    accepts := isPath }

/-- The variable that stands for a missing `config` flag. -/
def configVariable : String := "CSHARP_RAG_CONFIG"

def programName : String := "csharp-rag"

def programVersion : String := "0.1.0"

def programAbout : String := "Incremental ingestion and semantic search of C# codebases"

end CodeCorpus.CommandLine
