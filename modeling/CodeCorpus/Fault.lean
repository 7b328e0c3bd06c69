/-!
# Faults

What can go wrong, by the part it goes wrong in, and how causes stack. A fault is a chain of causes,
the outermost first: messages that say what was being done, general causes that enclose a particular
one, and the particular causes themselves. Its message joins the causes, and its exit status depends
only on which causes occur.
-/

namespace CodeCorpus

/-- Faults of embedding and of counting tokens. -/
inductive EmbeddingFault where
  | initializationFailed (reason : String)
  | generationFailed (reason : String)
  | timeout (seconds : Nat)
  | dimensionMismatch (expected actual : Nat)
  | missingVector
  | tokenizationFailed (reason : String)
  deriving DecidableEq, Repr

inductive StoreFault where
  | connectionFailed (reason : String)
  | creationFailed (table reason : String)
  | tableNotFound (table : String)
  | storeFailed (reason : String)
  | queryFailed (reason : String)
  | searchFailed (reason : String)
  | deleteFailed (reason : String)
  deriving DecidableEq, Repr

/-- Faults of listing and reading the files of a corpus. -/
inductive ListingFault where
  | directoryNotFound (path : String)
  | notADirectory (path : String)
  | walkFailed (reason : String)
  | fileReadFailed (file reason : String)
  | invalidEncoding (file : String)
  | cancelled
  deriving DecidableEq, Repr

/-- Faults of cutting sources into chunks. -/
inductive ChunkingFault where
  | parseFailed (reason : String)
  | invalidTokenBudget (reason : String)
  deriving DecidableEq, Repr

inductive ConfigFault where
  | loadFailed (reason : String)
  | parseFailed (reason : String)
  | invalidValue (key reason : String)
  | saveFailed (reason : String)
  | fileNotFound (path : String)
  | vocabularyNotFound (path : String)
  deriving DecidableEq, Repr

/-- Faults of what the user asked for. -/
inductive InputFault where
  | pathNotFound (path : String)
  | invalidPattern (reason : String)
  | empty (what : String)
  deriving DecidableEq, Repr

/-- A fault of one of the parts. -/
inductive PartFault where
  | embedding (fault : EmbeddingFault)
  | store (fault : StoreFault)
  | listing (fault : ListingFault)
  | chunking (fault : ChunkingFault)
  | config (fault : ConfigFault)
  | input (fault : InputFault)
  deriving DecidableEq, Repr

inductive Cause where
  /-- A fault of a part. -/
  | part (fault : PartFault)
  /-- A failure of input or output. -/
  | system (reason : String)
  /-- A fault of a part, named together with the part; the fault itself follows in the chain. -/
  | partOf (fault : PartFault)
  /-- A failure of input or output, named as such; the failure itself follows in the chain. -/
  | systemOf (reason : String)
  /-- Any other failure, known by its text alone. -/
  | other (reason : String)
  /-- What was being done when the following causes arose. -/
  | doing (text : String)
  deriving DecidableEq, Repr

/-- A chain of causes, the outermost first. -/
structure Fault where
  causes : List Cause
  deriving DecidableEq, Repr

/-! ## Messages -/

def EmbeddingFault.message : EmbeddingFault → String
  | .initializationFailed reason => s!"Failed to initialize embedding model: {reason}"
  | .generationFailed reason => s!"Failed to generate embeddings: {reason}"
  | .timeout seconds => s!"Embedding generation timed out after {seconds} seconds"
  | .dimensionMismatch expected actual =>
    s!"Invalid embedding dimension: expected {expected}, got {actual}"
  | .missingVector => "Embedding provider returned no vector for the input"
  | .tokenizationFailed reason => s!"Failed to count tokens: {reason}"

def StoreFault.message : StoreFault → String
  | .connectionFailed reason => s!"Failed to connect to vector database: {reason}"
  | .creationFailed table reason => s!"Failed to create collection '{table}': {reason}"
  | .tableNotFound table => s!"Collection '{table}' not found"
  | .storeFailed reason => s!"Failed to store records: {reason}"
  | .queryFailed reason => s!"Failed to query records: {reason}"
  | .searchFailed reason => s!"Failed to search embeddings: {reason}"
  | .deleteFailed reason => s!"Failed to delete records: {reason}"

def ListingFault.message : ListingFault → String
  | .directoryNotFound path => s!"Directory not found: {path}"
  | .notADirectory path => s!"Path is not a directory: {path}"
  | .walkFailed reason => s!"Failed to walk directory: {reason}"
  | .fileReadFailed file reason => s!"Failed to read file '{file}': {reason}"
  | .invalidEncoding file => s!"File is not valid UTF-8: {file}"
  | .cancelled => "Indexing was cancelled"

def ChunkingFault.message : ChunkingFault → String
  | .parseFailed reason => s!"Failed to parse code: {reason}"
  | .invalidTokenBudget reason => s!"Invalid token budget: {reason}"

def ConfigFault.message : ConfigFault → String
  | .loadFailed reason => s!"Failed to load configuration file: {reason}"
  | .parseFailed reason => s!"Failed to parse configuration: {reason}"
  | .invalidValue key reason => s!"Invalid configuration value for '{key}': {reason}"
  | .saveFailed reason => s!"Failed to save configuration: {reason}"
  | .fileNotFound path => s!"Configuration file not found: {path}"
  | .vocabularyNotFound path => s!"Tokenizer vocabulary not found at: {path}"

def InputFault.message : InputFault → String
  | .pathNotFound path => s!"Path does not exist: {path}"
  | .invalidPattern reason => s!"Invalid pattern: {reason}"
  | .empty what => s!"Empty {what}"

def PartFault.message : PartFault → String
  | .embedding f => f.message
  | .store f => f.message
  | .listing f => f.message
  | .chunking f => f.message
  | .config f => f.message
  | .input f => f.message

def PartFault.partName : PartFault → String
  | .embedding _ => "Embedding error"
  | .store _ => "Vector database error"
  | .listing _ => "Indexing error"
  | .chunking _ => "Chunking error"
  | .config _ => "Configuration error"
  | .input _ => "Validation error"

def Cause.message : Cause → String
  | .part f => f.message
  | .system reason => reason
  | .partOf f => s!"{f.partName}: {f.message}"
  | .systemOf reason => s!"IO error: {reason}"
  | .other reason => reason
  | .doing text => text

/-- The messages of all causes, the outermost first. -/
def Fault.message (f : Fault) : String := ": ".intercalate (f.causes.map Cause.message)

def Fault.headline (f : Fault) : String := (f.causes.head?.map Cause.message).getD ""

/-! ## Building chains -/

namespace Fault

/-- The chain of a fault of a part alone. -/
def ofPart (f : PartFault) : Fault := ⟨[.part f]⟩

/-- The chain of a fault of a part under the cause that names its part. -/
def ofNamedPart (f : PartFault) : Fault := ⟨[.partOf f, .part f]⟩

def embedding (f : EmbeddingFault) : Fault := ofPart (.embedding f)
def store (f : StoreFault) : Fault := ofPart (.store f)
def listing (f : ListingFault) : Fault := ofPart (.listing f)
def chunking (f : ChunkingFault) : Fault := ofPart (.chunking f)
def config (f : ConfigFault) : Fault := ofPart (.config f)
def input (f : InputFault) : Fault := ofPart (.input f)

def text (s : String) : Fault := ⟨[.doing s]⟩

/-- The fault under a message that says what was being done. -/
def within (f : Fault) (context : String) : Fault := ⟨.doing context :: f.causes⟩

end Fault

/-- A result whose fault, if any, stands under a message. -/
def Except.within (context : String) : Except Fault α → Except Fault α
  | .ok a => .ok a
  | .error f => .error (f.within context)

/-! ## Exit status -/

def ConfigFault.isUserFault : ConfigFault → Bool
  | .invalidValue _ _ => true
  | _ => false

def EmbeddingFault.isRetryable : EmbeddingFault → Bool
  | .timeout _ => true
  | _ => false

def StoreFault.isRetryable : StoreFault → Bool
  | .connectionFailed _ => true
  | _ => false

/-- A fault that the user can mend: a bad argument or a bad configuration value. -/
def PartFault.isUserFault : PartFault → Bool
  | .input _ => true
  | .config f => f.isUserFault
  | _ => false

def PartFault.isRetryable : PartFault → Bool
  | .store f => f.isRetryable
  | .embedding f => f.isRetryable
  | _ => false

def Cause.isUserFault : Cause → Bool
  | .partOf f => f.isUserFault
  | .part (.input _) => true
  | .part (.config f) => f.isUserFault
  | _ => false

def Cause.isRetryable : Cause → Bool
  | .partOf f => f.isRetryable
  | .systemOf _ => true
  | .part (.embedding f) => f.isRetryable
  | .part (.store f) => f.isRetryable
  | .system _ => true
  | _ => false

/-- The exit status that the causes of a failure lead to, from the outermost one on: 2 as soon as there is a user
fault, else 75 if a cause is retryable or one before them was, else 1. -/
def Fault.statusFrom (retryable : Bool) : List Cause → Nat
  | [] => if retryable then 75 else 1
  | c :: cs => if c.isUserFault then 2 else statusFrom (retryable || c.isRetryable) cs

def Fault.exitStatus (f : Fault) : Nat := statusFrom false f.causes

end CodeCorpus
