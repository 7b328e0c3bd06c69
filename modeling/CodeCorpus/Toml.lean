import CodeCorpus.Numeral.Binary

/-!
# TOML values

The values of the TOML format, and how a document grows from its lines. A table remembers how it came to
be, because that decides what may still be added to it: a table may be given one header, a table that
dotted keys made may be extended by dotted keys alone, and an inline table is complete.
-/

namespace CodeCorpus

/-- How a table came to be. -/
inductive Toml.TableKind where
  /-- By its own header. -/
  | header
  /-- By the header of a table inside it. -/
  | implicit
  /-- By a dotted key. -/
  | dotted
  /-- By a value in braces. -/
  | inline
  deriving DecidableEq, Repr

inductive Toml where
  | text (s : String)
  | integer (i : Int)
  | float (negative : Bool) (value : Numeral.Magnitude)
  | boolean (b : Bool)
  /-- A date, a time or both, as written. -/
  | moment (written : String)
  | array (items : List Toml)
  | table (kind : Toml.TableKind) (entries : List (String × Toml))
  /-- An array whose elements are tables with headers of their own. -/
  | tables (elements : List Toml)
  deriving Inhabited

namespace Toml

/-- One line of a document: a value for a key, after the keys of the tables around it, or a header. -/
inductive Line where
  | entry (path : List String) (key : String) (value : Toml)
  | header (path : List String) (key : String)
  | element (path : List String) (key : String)

/-- The value of a key. -/
def lookup? (key : String) (entries : List (String × Toml)) : Option Toml :=
  (entries.find? fun e => e.1 == key).map Prod.snd

/-- The entries with a value for a key, in place of the one it had. -/
def put (key : String) (value : Toml) (entries : List (String × Toml)) : List (String × Toml) :=
  if (lookup? key entries).isSome then
    entries.map fun e => if e.1 == key then (key, value) else e
  else entries ++ [(key, value)]

/-- A change to a table, where it is possible. -/
abbrev Change := TableKind → List (String × Toml) → Option Toml

/-- Changes a value that is a table, or the last table of an array of tables. -/
def changeTable (byDots : Bool) (change : Change) : Toml → Option Toml
  | .table kind entries =>
    if kind = .inline || (byDots && kind = .header) then none else change kind entries
  | .tables elements =>
    match elements.getLast? with
    | some (.table kind entries) =>
      (change kind entries).map fun last => .tables (elements.dropLast ++ [last])
    | _ => none
  | _ => none

/-- Makes a change in the table at the end of a path. Missing tables on the way are made; dotted keys
may not enter a table with a header of its own. -/
def descend (byDots : Bool) (change : Change) : List String → Change
  | [], kind, entries => change kind entries
  | key :: path, kind, entries =>
    let child := (lookup? key entries).getD (.table (if byDots then .dotted else .implicit) [])
    (changeTable byDots (descend byDots change path) child).map fun child =>
      .table kind (put key child entries)

/-- Adds a key that a table does not have yet. -/
def addEntry (byDots : Bool) (key : String) (value : Toml) : Change := fun kind entries =>
  if (kind = .dotted) != byDots || (lookup? key entries).isSome then none
  else some (.table kind (entries ++ [(key, value)]))

/-- Adds a value after a dotted path of keys. -/
def define (path : List String) (key : String) (value : Toml) : Change :=
  descend (!path.isEmpty) (addEntry (!path.isEmpty) key value) path

/-- Gives a table its header. -/
def openTable (key : String) : Change := fun kind entries =>
  match lookup? key entries with
  | none => some (.table kind (entries ++ [(key, .table .header [])]))
  | some (.table .implicit inner) => some (.table kind (put key (.table .header inner) entries))
  | some _ => none

/-- Adds a table to an array of tables. -/
def openElement (key : String) : Change := fun kind entries =>
  match lookup? key entries with
  | none => some (.table kind (entries ++ [(key, .tables [.table .header []])]))
  | some (.tables elements) =>
    some (.table kind (put key (.tables (elements ++ [.table .header []])) entries))
  | some _ => none

/-- Makes a change to a document, which is a table. -/
def apply (change : Change) : Toml → Option Toml
  | .table kind entries => change kind entries
  | _ => none

/-- The document with further lines, whose entries belong to the table at `current`. -/
def extend (current : List String) (document : Toml) : List Line → Option Toml
  | [] => some document
  | .entry path key value :: lines => do
    extend current (← document.apply (descend false (define path key value) current)) lines
  | .header path key :: lines => do
    extend (path ++ [key]) (← document.apply (descend false (openTable key) path)) lines
  | .element path key :: lines => do
    extend (path ++ [key]) (← document.apply (descend false (openElement key) path)) lines

def ofLines? (lines : List Line) : Option Toml := extend [] (.table .header []) lines

end Toml

end CodeCorpus
