import CodeCorpus.Text.Decoding
import CodeCorpus.Text.Occurrence

/-!
# Paths

Paths are texts with `/` between their parts. Repeated separators and parts `.` inside a path do not
count when paths are compared part by part.
-/

namespace CodeCorpus.Path

/-- The texts between the separators of a path, empty ones included; `part` is the current one, last
character first. -/
def splitFrom (part : List Char) : List Char → List String
  | [] => [String.ofList part.reverse]
  | c :: cs =>
    if c = '/' then String.ofList part.reverse :: splitFrom [] cs else splitFrom (c :: part) cs

def isAbsolute (path : String) : Bool := path.startsWith "/"

/-- The parts of a path that count: neither empty nor `.`. -/
def parts (path : String) : List String :=
  (splitFrom [] path.toList).filter fun p => p != "" && p != "."

/-- The steps that a path takes: its parts, and behind them its end if that is a separator or `.`, because then only
directories can be at the path. -/
def steps (path : String) : List String :=
  parts path ++ ((splitFrom [] path.toList).getLast?.filter fun p => p == "" || p == ".").toList

def ofParts (ps : List String) : String := "/" ++ "/".intercalate ps

/-- A path below another; an absolute one replaces it. -/
def join (base path : String) : String :=
  if isAbsolute path || base.isEmpty then path
  else if base.endsWith "/" then base ++ path
  else base ++ "/" ++ path

/-- The path of the directory that holds a path, if that has parts. -/
def parent? (path : String) : Option String :=
  match (parts path).dropLast, isAbsolute path with
  | ps, true => if (parts path).isEmpty then none else some (ofParts ps)
  | ps, false => if (parts path).isEmpty then none else some ("/".intercalate ps)

/-- The characters of a path without one part and the separators and `.` parts before the next one. -/
def dropPart : List Char → List Char
  | [] => []
  | '/' :: cs => '/' :: cs
  | _ :: cs => dropPart cs

/-- The characters without the separators and `.` parts they start with. -/
def dropSeparators : List Char → List Char
  | '/' :: cs => dropSeparators cs
  | '.' :: '/' :: cs => dropSeparators cs
  | ['.'] => []
  | cs => cs

/-- The characters without the separators and `.` parts they end with. -/
def dropTrailing (cs : List Char) : List Char :=
  let rec strip : List Char → List Char
    | '/' :: cs => strip cs
    | '.' :: '/' :: cs => strip ('/' :: cs)
    | cs => cs
  (strip cs.reverse).reverse

/-- The characters after as many parts as there are texts, if these are the parts. -/
def stripParts : List String → List Char → Option (List Char)
  | [], cs => some cs
  | p :: ps, cs =>
    match Text.afterStart p.toList (dropSeparators cs) with
    | some [] => stripParts ps []
    | some ('/' :: rest) => stripParts ps ('/' :: rest)
    | _ => none

/-- What follows a base in a path, as written there, if the path lies below the base. -/
def below? (base path : String) : Option String :=
  if isAbsolute base != isAbsolute path then none
  else (stripParts (parts base) path.toList).map fun rest =>
    String.ofList (dropTrailing (dropSeparators rest))

/-- A path with `/` for every backslash. -/
def normalize (path : String) : String := Text.substitute '\\' '/' path

/-- The bytes of a path as a text with `/` for every backslash. -/
def normalizeBytes (bytes : ByteArray) : String := normalize (Text.decodeLossy bytes)

end CodeCorpus.Path
