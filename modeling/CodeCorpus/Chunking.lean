import CodeCorpus.Counter
import CodeCorpus.Embedding
import CodeCorpus.Outline.Extraction
import CodeCorpus.Snippet
import CodeCorpus.Window

/-!
# Chunking

A source becomes chunks in three steps: its outline gives snippets, each snippet is cut into windows
within the token budget, and each window is embedded behind the prompt as soon as it is measured. A
failure or a cancellation on the way fails the whole document.
-/

namespace CodeCorpus

/-- How documents are cut and embedded in a world. -/
structure Chunker (ω : Type) where
  splitter : Splitter Fault
  provider : Provider ω
  /-- The time limit for one text, in seconds. -/
  timeout : Nat
  /-- What stands before each text that the model receives; it is not stored. -/
  prompt : String := ""

namespace Chunker

variable {ω : Type}

/-- A chunker, unless its token budget is zero. -/
def make? (count : Counter) (provider : Provider ω) (budget overlap timeout : Nat) (prompt : String) :
    Except Fault (Chunker ω) :=
  (Splitter.make? count budget overlap).map fun splitter => { splitter, provider, timeout, prompt }

/-- Fails if the run has been cancelled. -/
def checkCancelled (env : Conditions ω) : Action ω Unit := fun w =>
  let (cancelled, w) := env.cancelled w
  if cancelled then (.error (.listing .cancelled), w) else (.ok (), w)

def window (c : Chunker ω) (env : Conditions ω) (owner : Uuid) (s : Snippet) :
    Except Fault Window → Action ω Chunk
  | .error f => .fail (f.within s!"Failed to measure chunk of {s.typeName}")
  | .ok w => do
    checkCancelled env
    let vector ← (c.provider.embed c.timeout (c.prompt ++ w.text)).within
      (s!"Failed to embed chunk of {s.typeName}." ++ s.memberName.getD "")
    let id ← Action.ofState env.freshId
    return {
      id, owner, vector
      namespaceName := s.namespaceName
      typeName := s.typeName
      memberName := s.memberName
      snippet := w.text
      tokens := w.tokens
      oversized := w.oversized }

/-- Embeds the windows of one snippet in order. -/
def windows (c : Chunker ω) (env : Conditions ω) (owner : Uuid) (s : Snippet) :
    List (Except Fault Window) → Action ω (List Chunk)
  | [] => pure []
  | w :: ws => do
    let chunk ← c.window env owner s w
    let chunks ← windows c env owner s ws
    return chunk :: chunks

/-- Cuts and embeds snippets in order. -/
def snippets (c : Chunker ω) (env : Conditions ω) (owner : Uuid) : List Snippet → Action ω (List Chunk)
  | [] => pure []
  | s :: ss => do
    checkCancelled env
    let here ← c.windows env owner s (c.splitter.windows s.text)
    let others ← snippets c env owner ss
    return here ++ others

/-- The chunks of a source, which belong to the document `owner`. -/
def document (c : Chunker ω) (env : Conditions ω) (source : String) (owner : Uuid) :
    Action ω (List Chunk) :=
  c.snippets env owner (Outline.ofSource source).snippets

end Chunker

end CodeCorpus
