/-!
# Conditions on rows

A table is asked for rows by a condition in writing: a column equals a text, or is one of several. Texts
stand between single quotes, with a quote inside written twice, so that no text can end its literal.
-/

namespace CodeCorpus

/-- A column equals one of the values. -/
structure Condition where
  column : String
  values : List String
  deriving DecidableEq, Repr

namespace Condition

/-! ## Literals -/

def escape : List Char → List Char
  | [] => []
  | c :: cs => if c = '\x27' then '\x27' :: '\x27' :: escape cs else c :: escape cs

def quoteChars (cs : List Char) : List Char := '\x27' :: escape cs ++ ['\x27']

def quote (s : String) : String := String.ofList (quoteChars s.toList)

/-- The text of a literal after its opening quote, and what follows its closing one. -/
def readEscaped : List Char → Option (List Char × List Char)
  | [] => none
  | '\x27' :: '\x27' :: cs => (readEscaped cs).map fun (text, rest) => ('\x27' :: text, rest)
  | c :: cs =>
    if c = '\x27' then some ([], cs) else (readEscaped cs).map fun (text, rest) => (c :: text, rest)

/-- The text of a literal, and what follows it. -/
def readLiteral : List Char → Option (List Char × List Char)
  | [] => none
  | c :: cs => if c = '\x27' then readEscaped cs else none

/-! ## Written conditions -/

def equals (column value : String) : String := column ++ " = " ++ quote value

/-- The condition that a column is one of several texts. -/
def isOneOf (column : String) (values : List String) : String :=
  column ++ " IN (" ++ ", ".intercalate (values.map quote) ++ ")"

/-- The literals of a list up to its closing parenthesis, and nothing after it. -/
def readList : Nat → List Char → Option (List String)
  | 0, _ => none
  | fuel + 1, cs =>
    match readLiteral cs with
    | some (text, [')']) => some [String.ofList text]
    | some (text, ',' :: ' ' :: rest) => (readList fuel rest).map (String.ofList text :: ·)
    | _ => none

def isColumnCharacter (c : Char) : Bool := c.isAlphanum || c == '_'

def read? (s : String) : Option Condition :=
  let column := s.toList.takeWhile isColumnCharacter
  match s.toList.dropWhile isColumnCharacter with
  | ' ' :: '=' :: ' ' :: cs =>
    match readLiteral cs with
    | some (text, []) => some ⟨String.ofList column, [String.ofList text]⟩
    | _ => none
  | ' ' :: 'I' :: 'N' :: ' ' :: '(' :: cs =>
    (readList cs.length cs).map fun values => ⟨String.ofList column, values⟩
  | _ => none

end Condition

end CodeCorpus
