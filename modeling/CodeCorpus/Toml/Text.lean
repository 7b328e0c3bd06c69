import CodeCorpus.Json.Reader
import CodeCorpus.Json.Writer

/-!
# TOML strings

A string is written in one of four ways: between quotes with escapes or between apostrophes without, and
each of them on one line or, with tripled delimiters, on several. A string is written in the first way
that shows it as it is, and with escapes if none does.
-/

namespace CodeCorpus.Toml

/-! ## Reading -/

/-- The characters that may stand in a string, a comment or a line: tabs, but no other controls. -/
def isPlain (c : Char) : Bool := c == '\t' || (0x20 ≤ c.toNat && c.toNat != 0x7F)

def isSpace (c : Char) : Bool := c == ' ' || c == '\t'

/-- The character with this number, if there is one. -/
def character? (n : Nat) : Option Char := if h : n.isValidChar then some (Char.ofNatAux n h) else none

def escape? : Char → Option Char
  | 'b' => some '\x08'
  | 't' => some '\t'
  | 'n' => some '\n'
  | 'f' => some '\x0c'
  | 'r' => some '\r'
  | '\x22' => some '\x22'
  | '\\' => some '\\'
  | _ => none

/-- The character that an escape stands for, given what follows the backslash, and how many characters
the escape takes. -/
def readEscape : List Char → Option (Char × Nat)
  | 'u' :: a :: b :: c :: d :: _ =>
    ((Json.hexQuad? a b c d).bind character?).map fun x => (x, 5)
  | 'U' :: a :: b :: c :: d :: e :: f :: g :: h :: _ =>
    match Json.hexQuad? a b c d, Json.hexQuad? e f g h with
    | some high, some low => (character? (high * 0x10000 + low)).map fun x => (x, 9)
    | _, _ => none
  | e :: _ => (escape? e).map fun x => (x, 1)
  | [] => none

def withChar (c : Char) : Option (List Char × List Char) → Option (List Char × List Char)
  | some (chars, rest) => some (c :: chars, rest)
  | none => none

/-- The rest of a quoted string after its opening quote, and what follows its closing one; `skip` tells
how many characters belong to an escape already read. -/
def readQuoted : Nat → List Char → Option (List Char × List Char)
  | _, [] => none
  | skip + 1, _ :: cs => readQuoted skip cs
  | 0, '\x22' :: cs => some ([], cs)
  | 0, '\\' :: cs =>
    match readEscape cs with
    | some (c, taken) => withChar c (readQuoted taken cs)
    | none => none
  | 0, c :: cs => if isPlain c then withChar c (readQuoted 0 cs) else none

/-- The rest of a string between apostrophes, and what follows it. -/
def readLiteral : List Char → Option (List Char × List Char)
  | [] => none
  | '\x27' :: cs => some ([], cs)
  | c :: cs => if isPlain c then withChar c (readLiteral cs) else none

/-- Up to two delimiters that belong to the text although the closing delimiter follows them, and what
follows that. -/
def closing (delimiter : Char) (cs : List Char) : List Char × List Char :=
  let extra := (cs.take 2).takeWhile (· == delimiter)
  (extra, cs.drop extra.length)

/-- Whether the characters after a backslash are blanks up to the end of the line. -/
def continues (cs : List Char) : Bool :=
  match cs.dropWhile isSpace with
  | '\n' :: _ => true
  | '\r' :: '\n' :: _ => true
  | _ => false

/-- The rest of a quoted string on several lines, and what follows it. A backslash at the end of a line
takes the line end and the blanks and line ends after it out of the text; `joining` is set in between. -/
def readQuotedLines (joining : Bool) : Nat → List Char → Option (List Char × List Char)
  | _, [] => none
  | skip + 1, _ :: cs => readQuotedLines joining skip cs
  | 0, '\x22' :: '\x22' :: '\x22' :: cs => some (closing '\x22' cs)
  | 0, '\r' :: '\n' :: cs =>
    if joining then readQuotedLines true 0 cs else withChar '\n' (readQuotedLines false 0 cs)
  | 0, '\\' :: cs =>
    if continues cs then readQuotedLines true 0 cs
    else
      match readEscape cs with
      | some (c, taken) => withChar c (readQuotedLines false taken cs)
      | none => none
  | 0, c :: cs =>
    if joining && (isSpace c || c == '\n') then readQuotedLines true 0 cs
    else if isPlain c || c == '\n' then withChar c (readQuotedLines false 0 cs)
    else none

/-- The rest of a string between tripled apostrophes, and what follows it. -/
def readLiteralLines : List Char → Option (List Char × List Char)
  | [] => none
  | '\x27' :: '\x27' :: '\x27' :: cs => some (closing '\x27' cs)
  | '\r' :: '\n' :: cs => withChar '\n' (readLiteralLines cs)
  | c :: cs => if isPlain c || c == '\n' then withChar c (readLiteralLines cs) else none

/-- The characters without the line end they start with. -/
def dropNewline : List Char → List Char
  | '\n' :: cs => cs
  | '\r' :: '\n' :: cs => cs
  | cs => cs

/-- A string on one line, and what follows it. -/
def readLineText : List Char → Option (List Char × List Char)
  | '\x22' :: cs => readQuoted 0 cs
  | '\x27' :: cs => readLiteral cs
  | _ => none

/-- A string, and what follows it. A line end right after a tripled delimiter does not count. -/
def readText : List Char → Option (List Char × List Char)
  | '\x22' :: '\x22' :: '\x22' :: cs => readQuotedLines false 0 (dropNewline cs)
  | '\x27' :: '\x27' :: '\x27' :: cs => readLiteralLines (dropNewline cs)
  | cs => readLineText cs

/-! ## Writing -/

/-- The length of the longest run of a character. -/
def longestRun (c : Char) (run best : Nat) : List Char → Nat
  | [] => max run best
  | d :: ds => if d = c then longestRun c (run + 1) best ds else longestRun c 0 (max run best) ds

/-- A control that only an escape can show; tabs and line ends are none. -/
def isControl (c : Char) : Bool := !isPlain c && c != '\n'

def writeEscape (c : Char) : List Char :=
  match c with
  | '\x08' => ['\\', 'b']
  | '\t' => ['\\', 't']
  | '\n' => ['\\', 'n']
  | '\x0c' => ['\\', 'f']
  | '\r' => ['\\', 'r']
  | '\x22' => ['\\', '\x22']
  | '\\' => ['\\', '\\']
  | c =>
    if isPlain c then [c]
    else ['\\', 'u', '0', '0', (Json.hexDigit (c.toNat / 16)).toUpper, (Json.hexDigit c.toNat).toUpper]

def writeQuoted (cs : List Char) : List Char := cs.flatMap writeEscape

/-- The characters of a quoted string on several lines, after `run` quotes in a row: line ends stand as
they are, and so do quotes but every third in a row. -/
def writeQuotedLines (run : Nat) : List Char → List Char
  | [] => []
  | c :: cs =>
    if c = '\x22' then
      if run < 2 then c :: writeQuotedLines (run + 1) cs else '\\' :: c :: writeQuotedLines 0 cs
    else if c = '\n' then c :: writeQuotedLines 0 cs
    else writeEscape c ++ writeQuotedLines 0 cs

/-- The ways to write a string. -/
inductive TextStyle where
  | quoted
  | literal
  | quotedLines
  | literalLines
  deriving DecidableEq, Repr

/-- The way in which a string is written. -/
def TextStyle.of (cs : List Char) : TextStyle :=
  let controls := cs.any isControl
  let newline := cs.contains '\n'
  let backslash := cs.contains '\\'
  let quotes := longestRun '\x22' 0 0 cs
  let apostrophes := longestRun '\x27' 0 0 cs
  if !controls && !backslash && quotes = 0 && !newline then .quoted
  else if !controls && apostrophes = 0 && !newline then .literal
  else if !controls && !backslash && quotes ≤ 2 then .quotedLines
  else if !controls && apostrophes ≤ 2 then .literalLines
  else if newline then .quotedLines
  else .quoted

/-- The line end after a tripled delimiter, for a string with line ends. -/
def leadingNewline (cs : List Char) : List Char := if cs.contains '\n' then ['\n'] else []

def writeTextChars (cs : List Char) : List Char :=
  match TextStyle.of cs with
  | .quoted => '\x22' :: writeQuoted cs ++ ['\x22']
  | .literal => '\x27' :: cs ++ ['\x27']
  | .quotedLines =>
    ['\x22', '\x22', '\x22'] ++ leadingNewline cs ++ writeQuotedLines 0 cs ++ ['\x22', '\x22', '\x22']
  | .literalLines =>
    ['\x27', '\x27', '\x27'] ++ leadingNewline cs ++ cs ++ ['\x27', '\x27', '\x27']

def writeText (s : String) : String := String.ofList (writeTextChars s.toList)

end CodeCorpus.Toml
