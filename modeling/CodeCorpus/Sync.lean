import CodeCorpus.Changes
import CodeCorpus.Store

/-!
# Synchronisation

A run brings a store in line with a corpus: documents whose file is gone are removed, and each new or
modified file is rebuilt from scratch. A failure while a document is rebuilt rolls that document back and
is counted, and the run goes on; a cancellation ends the run between two documents.
-/

namespace CodeCorpus

/-- A corpus that a store can be brought in line with. -/
structure Source (ω : Type) where
  /-- The width of the vectors of its chunks. -/
  dimension : Nat
  /-- What differs between the corpus and the stored documents. -/
  changes : List Document → Action ω Changes
  /-- The chunks of a document that has to be built. -/
  chunks : Pending → Action ω (List Chunk)

structure Run where
  report : Report
  /-- The documents that the run has to handle. -/
  total : Nat
  /-- What has been made known so far, in order. -/
  progress : List Progress := []
  deriving DecidableEq, Repr

namespace Run

def notify (path : String) (r : Run) : Run :=
  { r with progress := r.progress ++ [⟨r.report.processed, r.total, r.report.failed, path⟩] }

def note (line : String) (r : Run) : Run :=
  { r with report := { r.report with errors := r.report.errors ++ [line] } }

def fail (path reason : String) (r : Run) : Run :=
  note s!"{path}: {reason}" { r with report := { r.report with failed := r.report.failed + 1 } }

def removed (r : Run) : Run := { r with report := { r.report with deleted := r.report.deleted + 1 } }

def rebuilt (chunks : Nat) (r : Run) : Run :=
  { r with report := { r.report with
      succeeded := r.report.succeeded + 1
      chunksCreated := r.report.chunksCreated + chunks } }

def cancel (r : Run) : Run := { r with report := { r.report with cancelled := true } }

/-- The state of a run at its start, before any document is handled. -/
def start (changes : Changes) : Run :=
  { report := {
      documentsTotal := changes.pending.length + changes.unreadable.length
      unchanged := changes.unchanged }
    total := changes.workTotal + changes.unreadable.length }

/-- Counts the files that could not be read. -/
def skip : List (String × String) → Run → Run
  | [], r => r
  | (path, reason) :: others, r =>
    skip others ((r.fail path s!"unreadable file: {reason}").notify path)

end Run

structure Sync (ω : Type) where
  store : Store ω
  env : Conditions ω

namespace Sync

variable {ω : Type} (s : Sync ω)

/-- Removes documents: their chunks first, then their records. -/
def remove (docs : List Document) : Action ω Unit := do
  let _ ← (s.store.removeChunksOf (docs.map Document.id)).within "Failed to delete chunks"
  let _ ← (s.store.removeDocuments (docs.map Document.id)).within "Failed to delete document records"
  pure ()

/-- Removes every document at a path with its chunks, and tells how many there were. -/
def removeAtPath (path : String) : Action ω Nat := do
  let docs ← (s.store.documents (.atPath path) none).within s!"Failed to look up {path}"
  if docs.isEmpty then pure 0
  else do
    s.remove docs
    pure docs.length

/-- Rebuilds one document and tells how many chunks it has. What an earlier record or an earlier failed
run left behind is removed first. -/
def rebuild (source : Source ω) (p : Pending) : Action ω Nat := do
  let _ ← s.removeAtPath p.document.path
  (s.store.putDocuments [p.document]).within "Failed to store document record"
  let chunks ← source.chunks p
  (s.store.putChunks chunks).within "Failed to store chunks"
  pure chunks.length

/-- Removes what a failed rebuild left behind. -/
def rollBack (d : Document) (r : Run) : Action ω Run := do
  match ← (s.remove [d]).attempt with
  | .ok _ => pure r
  | .error f => pure (r.note s!"{d.path}: rollback failed: {f.message}")

/-- Handles the documents whose file is gone. -/
def deletions : List Document → Run → Action ω Run
  | [], r => pure r
  | d :: ds, r => do
    if ← Action.ofState s.env.cancelled then pure r.cancel
    else
      match ← (s.remove [d]).attempt with
      | .ok _ => deletions ds (r.removed.notify d.path)
      | .error f => deletions ds ((r.fail d.path f.message).notify d.path)

/-- Handles the documents that have to be built, unless the run has been cancelled already. -/
def rebuilds (source : Source ω) : List Pending → Run → Action ω Run
  | [], r => pure r
  | p :: ps, r => do
    if r.report.cancelled then pure r
    else if ← Action.ofState s.env.cancelled then pure r.cancel
    else
      match ← (s.rebuild source p).attempt with
      | .ok count => rebuilds source ps ((r.rebuilt count).notify p.document.path)
      | .error f =>
        let r ← s.rollBack p.document r
        if ← Action.ofState s.env.cancelled then pure r.cancel
        else rebuilds source ps ((r.fail p.document.path f.message).notify p.document.path)

/-- Brings the store in line with the changes of a corpus. -/
def apply (source : Source ω) (changes : Changes) : Action ω Run := do
  let r := (Run.start changes).skip changes.unreadable
  let r ← s.deletions changes.deleted r
  let r ← s.rebuilds source changes.pending r
  match ← s.store.flush.attempt with
  | .ok _ => pure r
  | .error f => pure (r.note s!"flush: {f.message}")

/-- Brings the store in line with a corpus. It fails only if the run cannot start. -/
def ingest (source : Source ω) : Action ω Run := do
  (s.store.prepare source.dimension).within "Failed to prepare vector store"
  let stored ← (s.store.documents .all none).within "Failed to load persisted documents"
  let changes ← (source.changes stored).within "Failed to detect changes"
  s.apply source changes

end Sync

end CodeCorpus
