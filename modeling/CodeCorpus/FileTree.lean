import CodeCorpus.Path

/-!
# File trees

A file tree holds files, directories and symbolic links by the parts of their absolute paths. A path is
resolved link by link; a bound on the links stands for the system's own. Names may be of any length, and
nothing is forbidden to anyone.
-/

namespace CodeCorpus

inductive FileNode where
  | file (bytes : ByteArray)
  | directory
  | link (target : String)

/-- The nodes of a tree by the parts of their paths. The root is a directory without an entry. -/
structure FileTree where
  nodes : List (List String × FileNode) := []

/-- Why a path cannot be used. -/
inductive FileFault where
  | missing
  | notADirectory
  | isADirectory
  | alreadyExists
  | tooManyLinks
  | nulByte
  deriving DecidableEq, Repr

def FileFault.message : FileFault → String
  | .missing => "No such file or directory (os error 2)"
  | .notADirectory => "Not a directory (os error 20)"
  | .isADirectory => "Is a directory (os error 21)"
  | .alreadyExists => "File exists (os error 17)"
  | .tooManyLinks => "Too many levels of symbolic links (os error 40)"
  | .nulByte => "file name contained an unexpected NUL byte"

/-- Whether nothing can be found at a path that cannot be used. -/
def FileFault.isAbsence : FileFault → Bool
  | .missing | .notADirectory | .tooManyLinks | .nulByte => true
  | .isADirectory | .alreadyExists => false

namespace FileTree

/-- The links that may be followed for one path. -/
def linkLimit : Nat := 40

/-- The node at the parts of a path, without following links. -/
def node? (t : FileTree) (ps : List String) : Option FileNode :=
  if ps.isEmpty then some .directory else (t.nodes.find? fun e => e.1 == ps).map Prod.snd

/-- What the last part of a path is to lead to. -/
inductive Sought where
  /-- What is there, through links. -/
  | node
  /-- What is there, a link itself if there is one. -/
  | entry
  /-- Where a file is or could be made, through links. -/
  | place
  deriving DecidableEq

/-- The parts of the path that further steps below `done` lead to, up to the first link that has to be followed;
`follow` goes on from there. A file cannot be made where the path goes on with a separator. -/
def resolveUntilLink (t : FileTree) (sought : Sought)
    (follow : List String → List String → Except FileFault (List String)) (done : List String) :
    List String → Except FileFault (List String)
  | [] => .ok done
  | "" :: rest | "." :: rest => resolveUntilLink t sought follow done rest
  | ".." :: rest => resolveUntilLink t sought follow done.dropLast rest
  | part :: rest =>
    if sought == .place && rest == [""] then .error .isADirectory
    else
      match t.node? (done ++ [part]) with
      | none => if sought == .place && rest.isEmpty then .ok (done ++ [part]) else .error .missing
      | some .directory => resolveUntilLink t sought follow (done ++ [part]) rest
      | some (.file _) => if rest.isEmpty then .ok (done ++ [part]) else .error .notADirectory
      | some (.link target) =>
        if sought == .entry && rest.isEmpty then .ok (done ++ [part])
        else follow (if Path.isAbsolute target then [] else done) (Path.steps target ++ rest)

/-- The parts of the path that further steps below `done` lead to, following so many links. -/
def resolveFrom (t : FileTree) (sought : Sought) :
    (links : Nat) → (done rest : List String) → Except FileFault (List String)
  | 0 => resolveUntilLink t sought fun _ _ => .error .tooManyLinks
  | links + 1 => resolveUntilLink t sought (resolveFrom t sought links)

/-- The parts of the path that a path, taken below a working directory, leads to. The empty path leads nowhere. -/
def seek (t : FileTree) (sought : Sought) (directory path : String) : Except FileFault (List String) :=
  if path.isEmpty then .error .missing
  else if '\x00' ∈ path.toList then .error .nulByte
  else t.resolveFrom sought linkLimit [] (Path.steps (Path.join directory path))

def resolve (t : FileTree) (directory path : String) : Except FileFault (List String) := t.seek .node directory path

def lookup (t : FileTree) (directory path : String) : Except FileFault FileNode := do
  let ps ← t.resolve directory path
  match t.node? ps with
  | some n => .ok n
  | none => .error .missing

/-- The bytes of the file that a path leads to. -/
def read (t : FileTree) (directory path : String) : Except FileFault ByteArray := do
  match ← t.lookup directory path with
  | .file bytes => .ok bytes
  | _ => .error .isADirectory

/-- The bytes of the file that a path leads to, if it leads to one. -/
def bytes? (t : FileTree) (directory path : String) : Option ByteArray :=
  match t.read directory path with
  | .ok bytes => some bytes
  | .error _ => none

/-- The absolute path without links that a path leads to. -/
def canonical (t : FileTree) (directory path : String) : Except FileFault String :=
  (t.resolve directory path).map Path.ofParts

/-! ## Changes -/

/-- The tree with a node in place of the one at the parts of a path. -/
def setNode (t : FileTree) (ps : List String) (n : FileNode) : FileTree :=
  if (t.node? ps).isSome then
    ⟨t.nodes.map fun e => if e.1 == ps then (ps, n) else e⟩
  else ⟨t.nodes ++ [(ps, n)]⟩

/-- The tree with directories for the parts of a path below `done`, which leads through links. -/
def makeDirectories (t : FileTree) (done : List String) : List String → Except FileFault FileTree
  | [] => .ok t
  | ".." :: rest => makeDirectories t done.dropLast rest
  | part :: rest =>
    let ps := done ++ [part]
    match t.node? ps with
    | none => makeDirectories (t.setNode ps .directory) ps rest
    | some .directory => makeDirectories t ps rest
    | some (.file _) => .error (if rest.isEmpty then .alreadyExists else .notADirectory)
    | some (.link _) =>
      match t.resolveFrom .node linkLimit [] ps with
      | .ok target =>
        match t.node? target with
        | some .directory => makeDirectories t target rest
        | _ => .error (if rest.isEmpty then .alreadyExists else .notADirectory)
      | .error f => .error (if rest.isEmpty || f == .missing then .alreadyExists else f)

/-- The tree with a directory at a path, and with the directories on the way. -/
def createDirectories (t : FileTree) (path : String) : Except FileFault FileTree :=
  if '\x00' ∈ path.toList then .error .nulByte else t.makeDirectories [] (Path.parts path)

def place (t : FileTree) (path : String) (n : FileNode) : Except FileFault FileTree := do
  let ps := Path.parts path
  let t ← t.makeDirectories [] ps.dropLast
  match ps.getLast? with
  | none => .ok t
  | some name =>
    let directory ← t.resolveFrom .node linkLimit [] ps.dropLast
    .ok (t.setNode (directory ++ [name]) n)

/-- The tree with a file of these bytes at a path, and with the directories on the way; a link there is followed. -/
def write (t : FileTree) (path : String) (bytes : ByteArray) : Except FileFault FileTree := do
  let t ← t.makeDirectories [] (Path.parts path).dropLast
  let ps ← t.seek .place "/" path
  match t.node? ps with
  | some .directory => .error .isADirectory
  | _ => .ok (t.setNode ps (.file bytes))

/-- The tree without the node at a path; a link there is not followed. -/
def remove (t : FileTree) (path : String) : Except FileFault FileTree := do
  let ps ← t.seek .entry "/" path
  match t.node? ps with
  | some .directory => .error .isADirectory
  | _ => .ok ⟨t.nodes.filter fun e => e.1 != ps⟩

end FileTree

end CodeCorpus
