import CodeCorpus.Chunking
import CodeCorpus.Corpus.Decoding
import CodeCorpus.Digest
import CodeCorpus.Listing
import CodeCorpus.Sync

/-!
# Corpora in directories

The files that a walker lists are compared by the digests of their bytes. A file that has to be built is
read once more, so its chunks come from the bytes at that time.
-/

namespace CodeCorpus

/-- Fresh identifiers, as many as asked for. -/
def Conditions.freshIds {ω : Type} (env : Conditions ω) : Nat → Action ω (List Uuid)
  | 0 => pure []
  | n + 1 => do
    let id ← Action.ofState env.freshId
    let ids ← freshIds env n
    return id :: ids

/-- The changes between a listing and the stored documents, with fresh identifiers and the present
time. -/
def Changes.detectNow {ω : Type} (env : Conditions ω) (listing : List Listed)
    (stored : List Document) : Action ω Changes := do
  let ids ← env.freshIds listing.length
  let now ← Action.ofState env.now
  return detect (fun index => ids.getD index default) now listing stored

namespace Files

variable {ω : Type}

/-- Reads the listed files and takes their digests. -/
def digests (files : Files ω) : List SourceFile → Action ω (List Listed)
  | [] => pure []
  | f :: fs => do
    let bytes ← Action.ofState (files.read f.file)
    let others ← digests files fs
    return ⟨f.path, f.file, bytes.map Digest.fingerprint⟩ :: others

def text (files : Files ω) (path file : String) : Action ω String := do
  match ← Action.ofState (files.read file) with
  | .ok bytes => Action.ofExcept (Corpus.decode path bytes)
  | .error reason => Action.fail (.listing (.fileReadFailed path reason))

end Files

namespace Source

variable {ω : Type}

/-- The chunks of a file that has to be built, cut from its present bytes. -/
def fileChunks (env : Conditions ω) (files : Files ω) (chunker : Chunker ω) (p : Pending) :
    Action ω (List Chunk) := do
  let text ← files.text p.document.path p.file
  (chunker.document env text p.document.id).within s!"Failed to chunk {p.document.path}"

def ofFiles (env : Conditions ω) (files : Files ω) (chunker : Chunker ω) : Source ω :=
  { dimension := chunker.provider.dimension
    changes := fun stored => do
      let listed ← files.list
      let listing ← files.digests listed
      Changes.detectNow env listing stored
    chunks := fileChunks env files chunker }

end Source

end CodeCorpus
