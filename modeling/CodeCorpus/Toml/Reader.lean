import CodeCorpus.Toml.Scalar
import CodeCorpus.Toml.Text

/-!
# Reading TOML

A document is read line by line; the lines then grow into a value. Arrays and inline tables nest less than
80 levels deep, and no path has 80 keys.
-/

namespace CodeCorpus.Toml

/-- The levels that a value may have, and the keys that a path may have. -/
def depthLimit : Nat := 79

def skipSpace (cs : List Char) : List Char := cs.dropWhile isSpace

def newline? : List Char → Option (List Char)
  | '\n' :: cs => some cs
  | '\r' :: '\n' :: cs => some cs
  | _ => none

/-- What follows the rest of a line that holds blanks and a comment at most. -/
def endLine (cs : List Char) : Option (List Char) :=
  let rest :=
    match skipSpace cs with
    | '#' :: cs => cs.dropWhile isPlain
    | cs => cs
  if rest.isEmpty then some [] else newline? rest

/-- The characters after blanks, line ends and comments; `comment` is set inside a comment. -/
def skipTrivia (comment : Bool) : List Char → List Char
  | [] => []
  | '\n' :: cs => skipTrivia false cs
  | '\r' :: '\n' :: cs => skipTrivia false cs
  | c :: cs =>
    if comment then if isPlain c then skipTrivia true cs else c :: cs
    else if isSpace c then skipTrivia false cs
    else if c = '#' then skipTrivia true cs
    else c :: cs

/-! ## Keys -/

def isKeyCharacter (c : Char) : Bool := c.isAlphanum || c == '_' || c == '-'

/-- A single key, and what follows it. -/
def readKey (cs : List Char) : Option (String × List Char) :=
  match cs with
  | '\x22' :: _ | '\x27' :: _ => (readLineText cs).map fun (key, rest) => (String.ofList key, rest)
  | cs =>
    let key := cs.takeWhile isKeyCharacter
    if key.isEmpty then none else some (String.ofList key, cs.dropWhile isKeyCharacter)

/-- The keys of a dotted path between blanks, the first one apart, and what follows them. -/
def readPath (cs : List Char) : Nat → Option (String × List String × List Char)
  | 0 => none
  | fuel + 1 =>
    match readKey (skipSpace cs) with
    | none => none
    | some (key, rest) =>
      match skipSpace rest with
      | '.' :: rest =>
        (readPath rest fuel).map fun (next, others, rest) => (key, next :: others, rest)
      | rest => some (key, [], rest)

/-- A dotted path as the keys of the tables and the last key, and what follows it. -/
def readKeys (cs : List Char) : Option (List String × String × List Char) :=
  (readPath cs depthLimit).map fun (first, others, rest) =>
    match others.getLast? with
    | none => ([], first, rest)
    | some key => (first :: others.dropLast, key, rest)

/-- A dotted path and the `=` after it, and what follows the blanks after that. -/
def readAssignment (cs : List Char) : Option (List String × String × List Char) :=
  match readKeys cs with
  | some (path, key, '=' :: rest) => some (path, key, skipSpace rest)
  | _ => none

/-! ## Values -/

mutual

/-- A value, and what follows it. `depth` counts the levels that may still be opened. -/
def readValue (depth : Nat) (cs : List Char) : Nat → Option (Toml × List Char)
  | 0 => none
  | fuel + 1 =>
    match cs with
    | '\x22' :: _ | '\x27' :: _ =>
      (readText cs).map fun (chars, rest) => (.text (String.ofList chars), rest)
    | '[' :: cs =>
      match depth with
      | 0 => none
      | depth + 1 =>
        match skipTrivia false cs with
        | ']' :: rest => some (.array [], rest)
        | cs => (readItems depth cs fuel).map fun (items, rest) => (.array items, rest)
    | '{' :: cs =>
      match depth with
      | 0 => none
      | depth + 1 =>
        match skipSpace cs with
        | '}' :: rest => some (.table .inline [], rest)
        | cs => readPairs depth (.table .inline []) cs fuel
    | cs => readScalar cs

/-- The items of an array up to its closing bracket; a comma may stand after the last. -/
def readItems (depth : Nat) (cs : List Char) : Nat → Option (List Toml × List Char)
  | 0 => none
  | fuel + 1 =>
    match readValue depth cs fuel with
    | none => none
    | some (item, rest) =>
      match skipTrivia false rest with
      | ']' :: rest => some ([item], rest)
      | ',' :: rest =>
        match skipTrivia false rest with
        | ']' :: rest => some ([item], rest)
        | rest => (readItems depth rest fuel).map fun (items, rest) => (item :: items, rest)
      | _ => none

/-- The pairs of an inline table up to its closing brace, added to those before them. -/
def readPairs (depth : Nat) (done : Toml) (cs : List Char) : Nat → Option (Toml × List Char)
  | 0 => none
  | fuel + 1 =>
    match readAssignment cs with
    | none => none
    | some (path, key, rest) =>
      match readValue depth rest fuel with
      | none => none
      | some (value, rest) =>
        match done.apply (define path key value), skipSpace rest with
        | some done, '}' :: rest => some (done, rest)
        | some done, ',' :: rest => readPairs depth done rest fuel
        | _, _ => none

end

/-! ## Lines -/

/-- A header after its opening bracket, up to the closing one. -/
def readHeader (cs : List Char) : Option (Line × List Char) :=
  match cs with
  | '[' :: cs =>
    match readKeys cs with
    | some (path, key, ']' :: ']' :: rest) => some (.element path key, rest)
    | _ => none
  | cs =>
    match readKeys cs with
    | some (path, key, ']' :: rest) => some (.header path key, rest)
    | _ => none

/-- One line that is not empty, without its end. -/
def readLine (cs : List Char) : Option (Line × List Char) :=
  match cs with
  | '[' :: cs => readHeader cs
  | cs =>
    match readAssignment cs with
    | none => none
    | some (path, key, rest) =>
      (readValue depthLimit rest (2 * rest.length + 2)).map fun (value, rest) =>
        (.entry path key value, rest)

def readLines (cs : List Char) : Nat → Option (List Line)
  | 0 => none
  | fuel + 1 =>
    match skipTrivia false cs with
    | [] => some []
    | cs =>
      match readLine cs with
      | none => none
      | some (line, rest) =>
        match endLine rest with
        | none => none
        | some rest => (readLines rest fuel).map (line :: ·)

/-- The characters without the byte order mark they start with. -/
def dropMark : List Char → List Char
  | '\uFEFF' :: cs => cs
  | cs => cs

def lines? (s : String) : Option (List Line) :=
  let cs := dropMark s.toList
  readLines cs (cs.length + 1)

def read? (s : String) : Option Toml := (lines? s).bind ofLines?

end CodeCorpus.Toml
