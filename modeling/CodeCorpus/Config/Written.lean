import CodeCorpus.Config
import CodeCorpus.Toml.Library

/-!
# Written configurations

A configuration is written as a TOML document with a section for each part. In reading, missing sections
and keys keep their defaults, unknown ones do not count, and a section may also be given as an array of its
values in order.
-/

namespace CodeCorpus

/-! ## Reading -/

namespace Toml

def asText? : Toml → Option String
  | .text s => some s
  | _ => none

def asBool? : Toml → Option Bool
  | .boolean b => some b
  | _ => none

/-- A whole number that is not negative. -/
def asNat? : Toml → Option Nat
  | .integer i => if 0 ≤ i then some i.toNat else none
  | _ => none

def asSingle? : Toml → Option Float32
  | .integer i => some (Numeral.toFloat32 (decide (i < 0)) (Numeral.single.round i.natAbs 1))
  | .float negative value => some (Numeral.toFloat32 negative (value.narrow Numeral.single))
  | _ => none

/-- A 32-bit value, held in 64 bits. -/
def ofSingle (x : Float32) : Toml :=
  .float (Numeral.isNegative32 x) ((Numeral.magnitude32 x).narrow Numeral.double)

def asTexts? : Toml → Option (List String)
  | .array items => items.mapM asText?
  | _ => none

end Toml

/-- The values of a record, each by its name and its place. -/
abbrev Toml.Record := String → Nat → Option Toml

namespace Toml.Record

/-- The record that a value is: a table, or an array of the values in order. -/
def of? : Toml → Option Record
  | .table _ entries => some fun name _ => lookup? name entries
  | .array items => some fun _ place => items[place]?
  | .tables elements => some fun _ place => elements[place]?
  | _ => none

/-- The value of a field: the default if it is not given, and none if it is given but of another type. -/
def field? (r : Record) (name : String) (place : Nat) (read? : Toml → Option α) (default_ : α) :
    Option α :=
  match r name place with
  | some value => read? value
  | none => some default_

end Toml.Record

namespace Config

open Toml

def readStore? (d : StoreSettings) (value : Toml) : Option StoreSettings := do
  let r ← Record.of? value
  return {
    backend := ← r.field? "backend" 0 asText? d.backend
    database := ← r.field? "lancedb_path" 1 asText? d.database
    server := ← r.field? "qdrant_url" 2 asText? d.server
    documentsTable := ← r.field? "documents_collection" 3 asText? d.documentsTable
    chunksTable := ← r.field? "chunks_collection" 4 asText? d.chunksTable }

def readEmbedding? (d : EmbeddingSettings) (value : Toml) : Option EmbeddingSettings := do
  let r ← Record.of? value
  return {
    model := ← r.field? "model_name" 0 asText? d.model
    timeout := ← r.field? "timeout_secs" 1 asNat? d.timeout }

def readTokenizer? (d : TokenizerSettings) (value : Toml) : Option TokenizerSettings := do
  let r ← Record.of? value
  return {
    vocabulary := ← r.field? "vocab_path" 0 asText? d.vocabulary
    prompt := ← r.field? "prompt_prefix" 1 asText? d.prompt
    countsSpecial := ← r.field? "add_special_tokens" 2 asBool? d.countsSpecial }

def readChunking? (d : ChunkingSettings) (value : Toml) : Option ChunkingSettings := do
  let r ← Record.of? value
  return {
    budget := ← r.field? "max_tokens" 0 asNat? d.budget
    overlap := ← r.field? "overlap_lines" 1 asNat? d.overlap }

def readSource? (d : SourceSettings) (value : Toml) : Option SourceSettings := do
  let r ← Record.of? value
  return {
    pattern := ← r.field? "include_pattern" 0 asText? d.pattern
    excluded := ← r.field? "exclude_fragments" 1 asTexts? d.excluded
    maxFileSize := ← r.field? "max_file_size" 2 asNat? d.maxFileSize }

def readSearch? (d : SearchSettings) (value : Toml) : Option SearchSettings := do
  let r ← Record.of? value
  return {
    minScore := ← r.field? "min_score" 0 asSingle? d.minScore
    limit := ← r.field? "limit" 1 asNat? d.limit }

/-- The configuration that a document is, over defaults. -/
def ofToml? (d : Config) (document : Toml) : Option Config := do
  let r ← Record.of? document
  return {
    store := ← r.field? "vector_db" 0 (readStore? d.store) d.store
    embedding := ← r.field? "embedding" 1 (readEmbedding? d.embedding) d.embedding
    tokenizer := ← r.field? "tokenizer" 2 (readTokenizer? d.tokenizer) d.tokenizer
    chunking := ← r.field? "chunking" 3 (readChunking? d.chunking) d.chunking
    source := ← r.field? "source" 4 (readSource? d.source) d.source
    search := ← r.field? "search" 5 (readSearch? d.search) d.search }

/-- The configuration that a text writes, over defaults. -/
def read? [Toml.Library] (d : Config) (s : String) : Option Config := (Library.read? s).bind (ofToml? d)

/-! ## Writing -/

/-- The sections of a configuration, with the values of their keys. -/
def sections (c : Config) : List Section := [
  ("vector_db", [
    ("backend", .text c.store.backend),
    ("lancedb_path", .text c.store.database),
    ("qdrant_url", .text c.store.server),
    ("documents_collection", .text c.store.documentsTable),
    ("chunks_collection", .text c.store.chunksTable)]),
  ("embedding", [
    ("model_name", .text c.embedding.model),
    ("timeout_secs", .integer c.embedding.timeout)]),
  ("tokenizer", [
    ("vocab_path", .text c.tokenizer.vocabulary),
    ("prompt_prefix", .text c.tokenizer.prompt),
    ("add_special_tokens", .boolean c.tokenizer.countsSpecial)]),
  ("chunking", [
    ("max_tokens", .integer c.chunking.budget),
    ("overlap_lines", .integer c.chunking.overlap)]),
  ("source", [
    ("include_pattern", .text c.source.pattern),
    ("exclude_fragments", .array (c.source.excluded.map .text)),
    ("max_file_size", .integer c.source.maxFileSize)]),
  ("search", [
    ("min_score", .ofSingle c.search.minScore),
    ("limit", .integer c.search.limit)])]

/-- Why a configuration has no written form. -/
def unwritable : String := "out-of-range value for u64 type"

def write [Toml.Library] (c : Config) : Except String String :=
  match Library.write? c.sections with
  | some s => .ok s
  | none => .error unwritable

end Config

end CodeCorpus
