import CodeCorpus.Config.Written
import CodeCorpus.FileTree
import CodeCorpus.Numeral.Reading
import CodeCorpus.Text.Decoding

/-!
# Loading configurations

A configuration comes from a file or, where none is named and none is at its usual place, from the
defaults. Variables of the environment replace single values. What a file says must be allowed by itself,
and what the variables make of it must be allowed again.
-/

namespace CodeCorpus.Config

/-! ## Variables -/

/-- Sets a part of a configuration to the value of a variable, if that is set and can be read. -/
def override (env : Environment) (name : String) (read? : String → Option α)
    (set : α → Config → Config) (c : Config) : Config :=
  match (env.get? name).bind read? with
  | some value => set value c
  | none => c

def variableNames : List String := ["CSHARP_RAG_DB_BACKEND", "CSHARP_RAG_LANCEDB_PATH",
  "CSHARP_RAG_QDRANT_URL", "CSHARP_RAG_MODEL", "CSHARP_RAG_VOCAB_PATH", "CSHARP_RAG_PROMPT_PREFIX",
  "CSHARP_RAG_MAX_TOKENS", "CSHARP_RAG_OVERLAP_LINES", "CSHARP_RAG_MIN_SCORE"]

def withEnvironment (env : Environment) (c : Config) : Config :=
  c |> override env "CSHARP_RAG_DB_BACKEND" some (fun v c => { c with store.backend := v })
    |> override env "CSHARP_RAG_LANCEDB_PATH" some (fun v c => { c with store.database := v })
    |> override env "CSHARP_RAG_QDRANT_URL" some (fun v c => { c with store.server := v })
    |> override env "CSHARP_RAG_MODEL" some (fun v c => { c with embedding.model := v })
    |> override env "CSHARP_RAG_VOCAB_PATH" some (fun v c => { c with tokenizer.vocabulary := v })
    |> override env "CSHARP_RAG_PROMPT_PREFIX" some (fun v c => { c with tokenizer.prompt := v })
    |> override env "CSHARP_RAG_MAX_TOKENS" Numeral.readNatural?
      (fun v c => { c with chunking.budget := v })
    |> override env "CSHARP_RAG_OVERLAP_LINES" Numeral.readNatural?
      (fun v c => { c with chunking.overlap := v })
    |> override env "CSHARP_RAG_MIN_SCORE" Numeral.readSingle?
      (fun v c => { c with search.minScore := v })

/-! ## Files -/

/-- The configuration in a file, over defaults. -/
def ofFile [Toml.Library] (d : Config) (path : String) : Except FileFault ByteArray → Except ConfigFault Config
  | .error f =>
    .error (if f.isAbsence then .fileNotFound path
      else .loadFailed s!"Failed to read config file: {f.message}")
  | .ok bytes => do
    match Text.decode? bytes with
    | none => .error (.loadFailed "Failed to read config file: stream did not contain valid UTF-8")
    | some s =>
      match read? d s with
      | none => .error (.parseFailed "Invalid TOML: the text is no configuration")
      | some c =>
        c.validate
        return c

/-- The configuration that a file and the environment give. Without a named file, one at the usual place
may be missing. -/
def load [Toml.Library] (env : Environment) (named : Option String)
    (read : String → Except FileFault ByteArray) : Except ConfigFault Config := do
  let directories := Directories.ofEnvironment env
  let d := defaults directories
  let c ←
    match named with
    | some path => ofFile d path (read path)
    | none =>
      match read directories.configFile with
      | .error f => if f.isAbsence then .ok d else ofFile d directories.configFile (.error f)
      | content => ofFile d directories.configFile content
  let c := c.withEnvironment env
  c.validate
  return c

def save [Toml.Library] (c : Config) (t : FileTree) (path : String) : Except ConfigFault FileTree := do
  let made : Except FileFault FileTree :=
    match Path.parent? path with
    | some directory => t.createDirectories directory
    | none => .ok t
  match made with
  | .error f => .error (.saveFailed s!"Failed to create config directory: {f.message}")
  | .ok t =>
    match c.write with
    | .error reason => .error (.saveFailed s!"Failed to serialize config: {reason}")
    | .ok s =>
      match t.write path s.toUTF8 with
      | .error f => .error (.saveFailed s!"Failed to write config file: {f.message}")
      | .ok t => .ok t

end CodeCorpus.Config
