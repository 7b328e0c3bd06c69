import CodeCorpus.Fault
import CodeCorpus.Text.Blank
import CodeCorpus.Text.LowerCase
import CodeCorpus.Text.Occurrence

/-!
# Embedding models

The models that a configuration may name. Case and blanks around a name do not count, and the publisher
may be written before it.
-/

namespace CodeCorpus

inductive EmbeddingModel where
  | allMiniLML6V2
  | allMiniLML12V2
  | bgeSmallEnV15
  | bgeBaseEnV15
  | bgeLargeEnV15
  | nomicEmbedTextV1
  | nomicEmbedTextV15
  deriving DecidableEq, Repr

namespace EmbeddingModel

def all : List EmbeddingModel := [.allMiniLML6V2, .allMiniLML12V2, .bgeSmallEnV15, .bgeBaseEnV15,
  .bgeLargeEnV15, .nomicEmbedTextV1, .nomicEmbedTextV15]

def title : EmbeddingModel → String
  | .allMiniLML6V2 => "all-MiniLM-L6-v2"
  | .allMiniLML12V2 => "all-MiniLM-L12-v2"
  | .bgeSmallEnV15 => "bge-small-en-v1.5"
  | .bgeBaseEnV15 => "bge-base-en-v1.5"
  | .bgeLargeEnV15 => "bge-large-en-v1.5"
  | .nomicEmbedTextV1 => "nomic-embed-text-v1"
  | .nomicEmbedTextV15 => "nomic-embed-text-v1.5"

def dimension : EmbeddingModel → Nat
  | .allMiniLML6V2 | .allMiniLML12V2 | .bgeSmallEnV15 => 384
  | .bgeBaseEnV15 | .nomicEmbedTextV1 | .nomicEmbedTextV15 => 768
  | .bgeLargeEnV15 => 1024

/-- The publishers whose names may stand before that of a model, in the order they are dropped. -/
def publishers : List String := ["baai/", "nomic-ai/", "sentence-transformers/"]

/-- A name without the part it starts with, if it starts so. -/
def dropStart (name part : String) : String :=
  match Text.afterStart part.toList name.toList with
  | some rest => String.ofList rest
  | none => name

/-- The form of a name that is compared. -/
def key (name : String) : String := publishers.foldl dropStart (Text.lowerCase (Text.trim name))

/-- The model that a name stands for. -/
def named? (name : String) : Option EmbeddingModel :=
  all.find? fun m => Text.lowerCase m.title == key name

def resolve (name : String) : Except Fault EmbeddingModel :=
  match named? name with
  | some m => .ok m
  | none => .error (.config (.invalidValue "embedding.model_name"
      (s!"unknown model '{name}'; supported: " ++ ", ".intercalate (all.map title))))

end EmbeddingModel

end CodeCorpus
