import CodeCorpus.Client
import CodeCorpus.Embedding.Sample
import CodeCorpus.Store.Memory
import CodeCorpus.Store.Refusing
import CodeCorpus.Sync.Scripted

/-!
# Sessions

A session is a world in which everything runs without input or output: it holds the stores, the files,
the sample embedder and what it has recorded, whether the run is cancelled, and a clock that stands
still. Fresh identifiers ascend.
-/

namespace CodeCorpus

structure Session where
  memory : MemoryStore := {}
  /-- The databases by the absolute paths of their directories. -/
  databases : List (String × Database) := []
  /-- The store operations that fail. -/
  refused : List StoreOperation := []
  tree : FileTree := {}
  /-- The working directory. -/
  directory : String := "/"
  corpus : ScriptedCorpus := {}
  embedder : SampleEmbedder := {}
  /-- The texts that the embedder has recorded, in order. -/
  recorded : List String := []
  cancelled : Bool := false
  /-- How many more texts may be recorded until the run is cancelled. -/
  patience : Option Nat := none
  /-- The time in milliseconds. -/
  clock : Nat := 1750000000000
  /-- The number of identifiers made. -/
  made : Nat := 0

namespace Session

/-! ## Parts -/

def memorySlot : Slot Session MemoryStore := ⟨memory, fun m s => { s with memory := m }⟩

/-- The absolute path that a path stands for, without separators and `.` that do not count. -/
def absolute (path : String) (s : Session) : String :=
  Path.ofParts (Path.parts (Path.join s.directory path))

/-- The database in a directory; where there is none it is empty. -/
def databaseAt (path : String) (s : Session) : Database :=
  ((s.databases.find? fun d => d.1 == s.absolute path).map Prod.snd).getD []

def setDatabase (path : String) (d : Database) (s : Session) : Session :=
  { s with databases := (s.databases.filter fun e => e.1 != s.absolute path) ++ [(s.absolute path, d)] }

def databaseSlot (path : String) : Slot Session Database := ⟨databaseAt path, setDatabase path⟩

def treeSlot : Slot Session FileTree := ⟨tree, fun t s => { s with tree := t }⟩

def corpusSlot : Slot Session ScriptedCorpus := ⟨corpus, fun c s => { s with corpus := c }⟩

/-! ## Runs -/

def cancel (s : Session) : Session := { s with cancelled := true }

/-- Starts a run that may be cancelled already, or will be once some more texts are recorded. -/
def start (cancelled : Bool) (patience : Option Nat) (s : Session) : Session :=
  { s with cancelled, patience }

/-- Records a text and cancels the run if that was the last one it has patience for. -/
def record (text : String) (s : Session) : Session :=
  let s := { s with recorded := s.recorded ++ [text] }
  match s.patience with
  | none => s
  | some n => if n ≤ 1 then { s with patience := some 0, cancelled := true }
    else { s with patience := some (n - 1) }

def takeRecorded (s : Session) : List String × Session := (s.recorded, { s with recorded := [] })

def conditions : Conditions Session :=
  { cancelled := fun s => (s.cancelled, s)
    freshId := fun s => (Uuid.atTime s.clock s.made, { s with made := s.made + 1 })
    now := fun s => ((s.clock / 1000 : Nat), s) }

/-- The sample embedder of a session, which claims a fixed width. -/
def provider (dimension : Nat) : Provider Session :=
  { dimension
    reply := fun timeout text s =>
      match s.embedder.reply timeout text with
      | (reply, true) => (reply, s.record text)
      | (reply, false) => (reply, s) }

/-- The store in memory, less the refused operations. -/
def memoryStore : Store Session := (MemoryStore.asStore memorySlot).refusing refused

def tableStore (path : String) (tables : TableStore) : Store Session :=
  tables.asStore (databaseSlot path)

def disk : Disk Session :=
  { canonical := fun path s => s.tree.canonical s.directory path
    files := fun walker => walker.files conditions treeSlot }

def scriptedSource : Source Session := ScriptedCorpus.asSource conditions cancel corpusSlot

end Session

end CodeCorpus
