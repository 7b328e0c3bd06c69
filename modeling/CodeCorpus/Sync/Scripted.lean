import CodeCorpus.Digest
import CodeCorpus.Sync.Directory
import CodeCorpus.Text.Blank
import CodeCorpus.Text.Lines

/-!
# Scripted corpora

A corpus of texts in memory, with one chunk for each line. It can be told to fail in each of the ways a
corpus can, and to cancel the run while it is read.
-/

namespace CodeCorpus

/-- A corpus of texts in memory. -/
structure ScriptedCorpus where
  /-- The texts by path, in ascending order of the paths. -/
  files : List (String × String) := []
  /-- Files whose chunks fail. -/
  failing : List String := []
  /-- Files that cannot be read, and why. -/
  unreadable : List (String × String) := []
  /-- Whether looking for changes fails. -/
  unlistable : Bool := false
  /-- The file at which the run is cancelled. -/
  cancelling : Option String := none

namespace ScriptedCorpus

/-- The files with a text at a path, in order. -/
def insert (path text : String) : List (String × String) → List (String × String)
  | [] => [(path, text)]
  | (p, t) :: files =>
    if path = p then (p, text) :: files
    else if path < p then (path, text) :: (p, t) :: files
    else (p, t) :: insert path text files

def write (path text : String) (c : ScriptedCorpus) : ScriptedCorpus :=
  { c with files := insert path text c.files }

def remove (path : String) (c : ScriptedCorpus) : ScriptedCorpus :=
  { c with files := c.files.filter fun f => f.1 != path }

/-- The text at a path, empty if there is none. -/
def text (path : String) (c : ScriptedCorpus) : String :=
  ((c.files.find? fun f => f.1 == path).map Prod.snd).getD ""

def listing (c : ScriptedCorpus) : List Listed :=
  c.files.map fun (path, text) =>
    ⟨path, path,
      match c.unreadable.find? fun u => u.1 == path with
      | some (_, reason) => .error reason
      | none => .ok (Digest.fingerprint text.toUTF8)⟩

def chunk (id : Uuid) (p : Pending) (line : String) : Chunk :=
  { id, owner := p.document.id
    namespaceName := "Fake"
    typeName := p.document.path
    memberName := none
    snippet := line
    tokens := (Text.words line).length
    vector := [1, 0]
    oversized := false }

variable {ω : Type}

/-- The chunks of a file, one for each line. -/
def chunks (env : Conditions ω) (cancel : ω → ω) (slot : Slot ω ScriptedCorpus) (p : Pending) :
    Action ω (List Chunk) := do
  let corpus ← slot.read Except.ok
  if corpus.cancelling = some p.document.path then
    Action.change cancel
    Action.fail (.listing .cancelled)
  else if corpus.failing.contains p.document.path then
    Action.fail (.text "embedding backend unavailable")
  else
    let lines := Text.lines (corpus.text p.document.path)
    let ids ← env.freshIds lines.length
    return (ids.zip lines).map fun (id, line) => chunk id p line

/-- The corpus in a part of a world; `cancel` cancels the run. -/
def asSource (env : Conditions ω) (cancel : ω → ω) (slot : Slot ω ScriptedCorpus) : Source ω :=
  { dimension := 2
    changes := fun stored => do
      let corpus ← slot.read Except.ok
      if corpus.unlistable then Action.fail (.listing (.walkFailed "scripted"))
      else Changes.detectNow env corpus.listing stored
    chunks := chunks env cancel slot }

end ScriptedCorpus

end CodeCorpus
