import CodeCorpus.Numeral.Binary
import CodeCorpus.Uuid

/-!
# Records

What the index stores and reports. A document stands for one tracked file and is never updated in
place: a changed file gets a new document with a new identifier. A chunk is one embedded snippet of a
document. Progress and report say what a run did.
-/

namespace CodeCorpus

abbrev Vector32 := List Float32

/-- The record of one tracked file. -/
structure Document where
  id : Uuid
  /-- The path below the root of the corpus, with `/` between its parts. -/
  path : String
  /-- The digest of the file's bytes. -/
  digest : String
  /-- The time of the record's making, in seconds. -/
  indexedAt : Int
  deriving DecidableEq, Repr

/-- One embedded snippet of a document. -/
structure Chunk where
  id : Uuid
  /-- The document that the snippet comes from. -/
  owner : Uuid
  /-- The namespace of the file, empty for none. -/
  namespaceName : String
  /-- The type that the snippet comes from. -/
  typeName : String
  /-- The member that the snippet comes from, if it has a name. -/
  memberName : Option String
  snippet : String
  tokens : Nat
  vector : Vector32
  /-- A single line that exceeds the token budget by itself. -/
  oversized : Bool

/-- How far a run is, after a document has been handled. -/
structure Progress where
  processed : Nat
  total : Nat
  errors : Nat
  path : String
  deriving DecidableEq, Repr

/-- The 64-bit encoding of the completed fraction; a run with nothing to do is complete. -/
def Progress.fractionBits (p : Progress) : Nat :=
  if p.total = 0 then Numeral.ratioBits64 1 1 else Numeral.ratioBits64 p.processed p.total

structure Report where
  /-- Documents that were to be built. -/
  documentsTotal : Nat := 0
  succeeded : Nat := 0
  failed : Nat := 0
  deleted : Nat := 0
  unchanged : Nat := 0
  chunksCreated : Nat := 0
  /-- Run time in milliseconds. -/
  duration : Nat := 0
  errors : List String := []
  cancelled : Bool := false
  deriving DecidableEq, Repr

def Report.processed (r : Report) : Nat := r.succeeded + r.failed + r.deleted

/-- The numbers of records in a store. -/
structure Counts where
  documents : Nat
  chunks : Nat
  deriving DecidableEq, Repr

end CodeCorpus
