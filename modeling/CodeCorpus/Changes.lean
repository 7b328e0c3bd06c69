import CodeCorpus.Record

/-!
# Changes

The files of a corpus are compared with the stored documents by path and digest. Each listed file is
new, modified, unchanged or unreadable; a path that more than one document holds counts as modified, so
that it comes back to one. A stored document whose path is not listed at all is deleted.
-/

namespace CodeCorpus

/-- A file of the corpus with its digest, or why it could not be read. -/
structure Listed where
  /-- The path below the root of the corpus. -/
  path : String
  /-- Where the file is. -/
  file : String
  digest : Except String String

inductive ChangeKind where
  | new
  | modified
  deriving DecidableEq, Repr

/-- A document that has to be built. -/
structure Pending where
  /-- The record to store, with a fresh identifier. -/
  document : Document
  kind : ChangeKind
  file : String
  deriving DecidableEq, Repr

/-- What differs between a corpus and the stored documents. -/
structure Changes where
  pending : List Pending
  /-- Stored documents whose file is gone. -/
  deleted : List Document
  /-- The number of files that need nothing. -/
  unchanged : Nat
  /-- The paths of files that could not be read, and why. -/
  unreadable : List (String × String)
  deriving DecidableEq, Repr

namespace Changes

/-- What a listed file is, beside the stored documents. -/
inductive Verdict where
  | unreadable (reason : String)
  | unchanged
  | pending (kind : ChangeKind) (digest : String)
  deriving DecidableEq, Repr

def holders (stored : List Document) (path : String) : List Document :=
  stored.filter fun d => d.path == path

def verdict (stored : List Document) (entry : Listed) : Verdict :=
  match entry.digest with
  | .error reason => .unreadable reason
  | .ok digest =>
    match holders stored entry.path with
    | [] => .pending .new digest
    | [d] => if d.digest = digest then .unchanged else .pending .modified digest
    | _ => .pending .modified digest

/-- The changes with one more listed file in front, which gets `id` if it has to be built. -/
def cons (stored : List Document) (id : Uuid) (now : Int) (entry : Listed) (rest : Changes) : Changes :=
  match verdict stored entry with
  | .unreadable reason => { rest with unreadable := (entry.path, reason) :: rest.unreadable }
  | .unchanged => { rest with unchanged := rest.unchanged + 1 }
  | .pending kind digest =>
    { rest with pending := ⟨⟨id, entry.path, digest, now⟩, kind, entry.file⟩ :: rest.pending }

/-- The changes of a listing whose first entry has number `index`; `stamp` gives the identifier for
each number. -/
def detectFrom (stamp : Nat → Uuid) (now : Int) (stored deleted : List Document) (index : Nat) :
    List Listed → Changes
  | [] => ⟨[], deleted, 0, []⟩
  | entry :: listing =>
    cons stored (stamp index) now entry (detectFrom stamp now stored deleted (index + 1) listing)

/-- The stored documents whose path is not listed. -/
def gone (listing : List Listed) (stored : List Document) : List Document :=
  stored.filter fun d => !listing.any fun e => e.path == d.path

/-- The changes between a listing and the stored documents. The document built for the entry with
number `n` of the listing gets the identifier `stamp n` and the time `now`. -/
def detect (stamp : Nat → Uuid) (now : Int) (listing : List Listed) (stored : List Document) :
    Changes :=
  detectFrom stamp now stored (gone listing stored) 0 listing

/-- Whether no document has to be built or deleted. -/
def isEmpty (c : Changes) : Bool := c.pending.isEmpty && c.deleted.isEmpty

/-- The number of documents to build or delete. -/
def workTotal (c : Changes) : Nat := c.pending.length + c.deleted.length

end Changes

end CodeCorpus
