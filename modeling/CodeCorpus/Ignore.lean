import CodeCorpus.Glob.Reading
import CodeCorpus.Text.Blank
import CodeCorpus.Text.Decoding
import CodeCorpus.Text.Lines

/-!
# Ignore rules

A directory may hold files whose lines are patterns for what is to be ignored in and below it. Within a
file the last rule that fits decides. Of the rules of a directory and those above it the nearest count
first, separately for each kind of file; the kinds are asked in order.
-/

namespace CodeCorpus

/-- One line of an ignore file. -/
structure IgnoreRule where
  glob : Glob
  /-- The rule takes back what others ignore. -/
  keeps : Bool
  /-- The rule is about directories only. -/
  directories : Bool

/-- The kinds of ignore files, in the order they are asked. -/
inductive IgnoreFile where
  | ignore
  | gitignore
  | gitExclude
  deriving DecidableEq, Repr

namespace IgnoreFile

def all : List IgnoreFile := [.ignore, .gitignore, .gitExclude]

/-- Where the file is, below the directory it is about. -/
def parts : IgnoreFile → List String
  | .ignore => [".ignore"]
  | .gitignore => [".gitignore"]
  | .gitExclude => [".git", "info", "exclude"]

end IgnoreFile

namespace IgnoreRule

/-- A line without the blanks it ends with, unless the last of them is escaped. -/
def trimLine (line : String) : String := if line.endsWith "\\ " then line else Text.trimEnd line

/-- A pattern as it is matched against the path below the directory: without a `/` in it, it may be about
any part of the path, and with `/**` at its end it is about what is inside alone. -/
def anchored (atRoot : Bool) (pattern : String) : String :=
  let p :=
    if atRoot || pattern.toList.contains '/' || pattern == "**" then pattern
    else "**/" ++ pattern
  if p.endsWith "/**" then p ++ "/*" else p

/-- The rule that a pattern without its sign writes. -/
def ofPattern? (keeps atRoot : Bool) (pattern : List Char) : Option IgnoreRule :=
  let directories := pattern.getLast? == some '/'
  let pattern := if directories then pattern.dropLast else pattern
  let pattern :=
    if directories && pattern.getLast? == some '\\' then pattern.dropLast else pattern
  match Glob.read true (anchored atRoot (String.ofList pattern)) with
  | .ok glob => some ⟨glob, keeps, directories⟩
  | .error _ => none

/-- The rule that a line writes; comments, blank lines and bad patterns write none. -/
def ofLine? (line : String) : Option IgnoreRule :=
  match (trimLine line).toList with
  | [] => none
  | '#' :: _ => none
  | '\\' :: '!' :: cs => ofPattern? false false ('!' :: cs)
  | '\\' :: '#' :: cs => ofPattern? false false ('#' :: cs)
  | '!' :: '/' :: cs => ofPattern? true true cs
  | '!' :: cs => ofPattern? true false cs
  | '/' :: cs => ofPattern? false true cs
  | cs => ofPattern? false false cs

/-- The lines of a file up to the first that is no text. -/
def validLines : List (List UInt8) → List String
  | [] => []
  | line :: lines =>
    match Text.decode? ⟨line.toArray⟩ with
    | some s => (if s.endsWith "\r" then String.ofList s.toList.dropLast else s) :: validLines lines
    | none => []

/-- A first line without the byte order mark it starts with. -/
def dropMark : List String → List String
  | [] => []
  | first :: others =>
    (match first.toList with
      | '\uFEFF' :: cs => String.ofList cs
      | _ => first) :: others

def ofBytes (bytes : ByteArray) : List IgnoreRule :=
  (dropMark (validLines (Text.byteLines [] bytes.toList))).filterMap ofLine?

/-- Whether a rule is about a path below its directory. -/
def fits (r : IgnoreRule) (path : String) (isDirectory : Bool) : Bool :=
  (!r.directories || isDirectory) && r.glob.isMatch path

/-- Whether the rules of one file ignore a path, if any is about it. -/
def verdict? (rules : List IgnoreRule) (path : String) (isDirectory : Bool) : Option Bool :=
  (rules.reverse.find? fun r => r.fits path isDirectory).map fun r => !r.keeps

end IgnoreRule

/-- The ignore rules of one directory, for each kind of file. -/
structure IgnoreRules where
  /-- The parts of the directory's path. -/
  directory : List String
  rules : IgnoreFile → List IgnoreRule

namespace IgnoreRules

/-- The first verdict of the rules of several directories, the nearest directory first. -/
def verdictOf? (kind : IgnoreFile) (path : List String) (isDirectory : Bool) :
    List IgnoreRules → Option Bool
  | [] => none
  | d :: ds =>
    (IgnoreRule.verdict? (d.rules kind) ("/".intercalate (path.drop d.directory.length)) isDirectory).or
      (verdictOf? kind path isDirectory ds)

/-- Whether a path is ignored by the rules of the directories around it, the nearest first. -/
def ignored (around : List IgnoreRules) (path : List String) (isDirectory : Bool) : Bool :=
  (IgnoreFile.all.findSome? fun kind => verdictOf? kind path isDirectory around).getD false

end IgnoreRules

end CodeCorpus
