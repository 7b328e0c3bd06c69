import CodeCorpus.Action
import CodeCorpus.FileTree
import CodeCorpus.Ignore
import CodeCorpus.Store

/-!
# Listing the files of a corpus

The files below a root directory are listed if no ignore rule is about them or a directory around them,
they are not inside `.git`, their path below the root fits the pattern, their full path contains no
excluded part, and they are not too large. Links are not followed. The list is sorted by path.
-/

namespace CodeCorpus

structure SourceFile where
  /-- The path below the root, with `/` for every backslash. -/
  path : String
  /-- Where the file is. -/
  file : String
  size : Nat
  deriving DecidableEq, Repr

/-- Which files below a root are listed. -/
structure Walker where
  root : String
  maxSize : Nat
  pattern : Glob
  /-- Texts that may not occur in the full path. -/
  excluded : List String

namespace Walker

/-- A walker, unless the text writes no pattern. -/
def make? (root : String) (maxSize : Nat) (pattern : String) (excluded : List String) :
    Except Fault Walker :=
  match Glob.read false pattern with
  | .ok glob => .ok ⟨root, maxSize, glob, excluded⟩
  | .error f =>
    .error (.input (.invalidPattern s!"{pattern}: {Glob.faultMessage pattern f}"))

/-- Whether a path below the root fits the pattern and its full path holds no excluded part. -/
def accepts (w : Walker) (file path : String) : Bool :=
  w.pattern.isMatch path && !w.excluded.any fun part => Text.occursIn part (Path.normalize file)

/-- The rules in the ignore files of a directory. -/
def rulesIn (t : FileTree) (directory : List String) : IgnoreRules :=
  ⟨directory, fun kind =>
    match t.bytes? "/" (Path.ofParts (directory ++ kind.parts)) with
    | some bytes => IgnoreRule.ofBytes bytes
    | none => []⟩

/-- The starts of a path, the shortest first. -/
def starts : List String → List (List String)
  | [] => [[]]
  | p :: ps => [] :: (starts ps).map (p :: ·)

/-- The rules of the directories around a path, the nearest first. -/
def rulesAround (t : FileTree) (ps : List String) : List IgnoreRules :=
  (starts ps.dropLast).reverse.map (rulesIn t)

/-- Whether the path below `done` or a directory on the way to it is ignored. -/
def ignoredBelow (t : FileTree) (done : List String) : List String → Bool
  | [] => false
  | [name] => IgnoreRules.ignored (rulesAround t (done ++ [name])) (done ++ [name]) false
  | name :: rest =>
    IgnoreRules.ignored (rulesAround t (done ++ [name])) (done ++ [name]) true ||
      ignoredBelow t (done ++ [name]) rest

/-- The listed file at a node, if it is one: `ps` are the parts of its path below the root, which itself
is the directory with the parts `base`. -/
def listed? (w : Walker) (t : FileTree) (base ps : List String) (n : FileNode) : Option SourceFile :=
  match n with
  | .file bytes =>
    let file := Path.join w.root ("/".intercalate ps)
    let path := Path.normalize ("/".intercalate ps)
    if !ignoredBelow t base ps && !(Path.parts file).contains ".git" && w.accepts file path &&
        bytes.size ≤ w.maxSize then some ⟨path, file, bytes.size⟩
    else none
  | _ => none

/-- The files below the directory with the parts `base`. -/
def filesBelow (w : Walker) (t : FileTree) (base : List String) : List SourceFile :=
  t.nodes.filterMap fun e =>
    if base.length < e.1.length && base.isPrefixOf e.1 then
      w.listed? t base (e.1.drop base.length) e.2
    else none

/-- The order of listed files. -/
def precedes (a b : SourceFile) : Bool := decide (a.path ≤ b.path)

/-- The listed files in order, unless the root is no directory. -/
def list (w : Walker) (t : FileTree) : Except Fault (List SourceFile) :=
  match t.resolve "/" w.root with
  | .error _ => .error (.listing (.directoryNotFound w.root))
  | .ok base =>
    match t.node? base with
    | some .directory => .ok ((w.filesBelow t base).mergeSort precedes)
    | _ => .error (.listing (.notADirectory w.root))

end Walker

/-- The files of a corpus in a world: their list, and the bytes of one of them or why it cannot be
read. -/
structure Files (ω : Type) where
  list : Action ω (List SourceFile)
  read : String → ω → Except String ByteArray × ω

namespace Walker

/-- Lists files in a part of a world, unless the run has been cancelled. -/
def files {ω : Type} (w : Walker) (env : Conditions ω) (slot : Slot ω FileTree) : Files ω :=
  { list := fun world =>
      match w.list (slot.get world) with
      | .error f => (.error f, world)
      | .ok files =>
        let (cancelled, world) := env.cancelled world
        if cancelled then (.error (.listing .cancelled), world) else (.ok files, world)
    read := fun file world => (((slot.get world).read "/" file).mapError FileFault.message, world) }

end Walker

end CodeCorpus
