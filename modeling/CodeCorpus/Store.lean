import CodeCorpus.Action
import CodeCorpus.Record
import CodeCorpus.Text.Occurrence

/-!
# Stores

A store keeps document and chunk records. It does not enforce that a chunk's document is stored: callers
remove a document's chunks themselves. A store is a record of actions in a world, so that a wrapper or a
test world can stand in for a real one.
-/

namespace CodeCorpus

inductive DocumentFilter where
  | all
  /-- Those with exactly this path. -/
  | atPath (path : String)
  /-- Those whose path contains the text. -/
  | containing (part : String)
  deriving DecidableEq, Repr

def DocumentFilter.selects : DocumentFilter → Document → Bool
  | .all, _ => true
  | .atPath path, d => d.path == path
  | .containing part, d => Text.occursIn part d.path

inductive ChunkFilter where
  | all
  /-- Those of any of the documents. -/
  | ownedBy (ids : List Uuid)
  deriving DecidableEq, Repr

def ChunkFilter.selects : ChunkFilter → Chunk → Bool
  | .all, _ => true
  | .ownedBy ids, c => ids.contains c.owner

/-- At most `limit` items, all of them without a limit. -/
def limited (limit : Option Nat) (xs : List α) : List α :=
  match limit with
  | some n => xs.take n
  | none => xs

structure Store (ω : Type) where
  /-- Prepares the store for vectors of a width. -/
  prepare : Nat → Action ω Unit
  documents : DocumentFilter → Option Nat → Action ω (List Document)
  /-- Adds documents in place of those with the same identifiers. -/
  putDocuments : List Document → Action ω Unit
  /-- Removes documents and tells how many there were. -/
  removeDocuments : List Uuid → Action ω Nat
  chunks : ChunkFilter → Option Nat → Action ω (List Chunk)
  /-- Adds chunks in place of those with the same identifiers. -/
  putChunks : List Chunk → Action ω Unit
  /-- Removes chunks and tells how many there were. -/
  removeChunks : List Uuid → Action ω Nat
  /-- Removes the chunks of documents and tells how many there were. -/
  removeChunksOf : List Uuid → Action ω Nat
  /-- The chunks nearest to a vector with their scores, the best first. -/
  nearest : Vector32 → Nat → ChunkFilter → Action ω (List (Chunk × Float32))
  counts : Action ω Counts
  /-- Makes the changes durable. -/
  flush : Action ω Unit

/-- The removal of the chunks of documents by reading them and removing them by their own
identifiers. -/
def Store.removeChunksByReading {ω : Type} (chunks : ChunkFilter → Option Nat → Action ω (List Chunk))
    (removeChunks : List Uuid → Action ω Nat) (owners : List Uuid) : Action ω Nat :=
  if owners.isEmpty then pure 0
  else do
    let found ← chunks (.ownedBy owners) none
    removeChunks (found.map Chunk.id)

/-- A part of a world that can be read and replaced. -/
structure Slot (ω σ : Type) where
  get : ω → σ
  set : σ → ω → ω

namespace Slot

variable {ω σ α : Type}

def whole : Slot ω ω := ⟨id, fun s _ => s⟩

def run (slot : Slot ω σ) (f : σ → Except Fault α × σ) : Action ω α := fun w =>
  ((f (slot.get w)).1, slot.set (f (slot.get w)).2 w)

def read (slot : Slot ω σ) (f : σ → Except Fault α) : Action ω α := fun w => (f (slot.get w), w)

end Slot

end CodeCorpus
