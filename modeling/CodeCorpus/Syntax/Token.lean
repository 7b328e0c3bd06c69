import CodeCorpus.Syntax.Node
import CodeCorpus.Text.Blank

/-!
# Tokens of C# sources

A source text is cut into words, numbers, strings, characters, signs, comments and directive lines;
blanks between them are dropped. Each step takes at least one character, so that scanning ends.
-/

namespace CodeCorpus.Syntax

inductive TokenKind where
  /-- A name or a reserved word. -/
  | word
  | number
  | string
  | character
  | sign
  | comment
  /-- A line that starts with `#`. -/
  | directive
  /-- A character that starts no token. -/
  | stray
  deriving DecidableEq, Repr, Inhabited

/-- A token with its text and place. -/
structure Token where
  kind : TokenKind
  text : String
  span : Span
  deriving Repr, Inhabited

/-! ## Strings

A string ends where its quotes are closed; inside the holes of an interpolated string stands code
with strings of its own. -/

/-- A place inside a string: in its text, or in the code of a hole. -/
inductive StringPlace where
  /-- Text that one quote sign closes: `verbatim` text doubles a quote and may span lines, text with
  `holes` is interpolated. -/
  | quoted (verbatim holes : Bool)
  /-- Text that `quotes` quote signs close; a hole opens with `braces` braces, if it is interpolated.
  The counts run over the signs seen last. -/
  | raw (quotes braces quotesSeen bracesSeen : Nat)
  /-- The code of a hole, inside `depth` braces of its own. -/
  | hole (depth : Nat)

/-- The number of signs at the start of the characters. -/
def runLength (c : Char) : List Char → Nat
  | [] => 0
  | d :: cs => if d = c then runLength c cs + 1 else 0

/-- The characters taken until every place of the stack is left, counted on from `n`; none if the
text ends before, or a line ends in plain quotes. -/
def stringLength : List StringPlace → List Char → Nat → Option Nat
  | [], _, n => some n
  | _ :: _, [], _ => none
  | .quoted false h :: st, '\\' :: _ :: cs, n => stringLength (.quoted false h :: st) cs (n + 2)
  | .quoted true h :: st, '\x22' :: '\x22' :: cs, n => stringLength (.quoted true h :: st) cs (n + 2)
  | .quoted _ _ :: st, '\x22' :: cs, n => stringLength st cs (n + 1)
  | .quoted v true :: st, '\x7b' :: '\x7b' :: cs, n =>
    stringLength (.quoted v true :: st) cs (n + 2)
  | .quoted v true :: st, '\x7b' :: cs, n => stringLength (.hole 0 :: .quoted v true :: st) cs (n + 1)
  | .quoted v h :: st, c :: cs, n =>
    if c = '\n' ∧ v = false then none else stringLength (.quoted v h :: st) cs (n + 1)
  | .raw q b seen _ :: st, '\x22' :: cs, n =>
    if seen + 1 = q then stringLength st cs (n + 1)
    else stringLength (.raw q b (seen + 1) 0 :: st) cs (n + 1)
  | .raw q b _ seen :: st, '\x7b' :: cs, n =>
    if seen + 1 = b then stringLength (.hole 0 :: .raw q b 0 0 :: st) cs (n + 1)
    else stringLength (.raw q b 0 (seen + 1) :: st) cs (n + 1)
  | .raw q b _ _ :: st, _ :: cs, n => stringLength (.raw q b 0 0 :: st) cs (n + 1)
  | .hole d :: st, '\x7b' :: cs, n => stringLength (.hole (d + 1) :: st) cs (n + 1)
  | .hole 0 :: st, '\x7d' :: cs, n => stringLength st cs (n + 1)
  | .hole (d + 1) :: st, '\x7d' :: cs, n => stringLength (.hole d :: st) cs (n + 1)
  | .hole d :: st, '$' :: '@' :: '\x22' :: cs, n =>
    stringLength (.quoted true true :: .hole d :: st) cs (n + 3)
  | .hole d :: st, '@' :: '$' :: '\x22' :: cs, n =>
    stringLength (.quoted true true :: .hole d :: st) cs (n + 3)
  | .hole d :: st, '@' :: '\x22' :: cs, n => stringLength (.quoted true false :: .hole d :: st) cs (n + 2)
  | .hole d :: st, '$' :: '\x22' :: cs, n => stringLength (.quoted false true :: .hole d :: st) cs (n + 2)
  | .hole d :: st, '\x22' :: cs, n => stringLength (.quoted false false :: .hole d :: st) cs (n + 1)
  | .hole d :: st, '\x27' :: '\\' :: _ :: '\x27' :: cs, n => stringLength (.hole d :: st) cs (n + 4)
  | .hole d :: st, '\x27' :: _ :: '\x27' :: cs, n => stringLength (.hole d :: st) cs (n + 3)
  | .hole d :: st, _ :: cs, n => stringLength (.hole d :: st) cs (n + 1)

/-- The length of the string that starts at the characters, if one does: any `$` and `@` signs, then
one quote sign, or three or more. -/
def stringLength? (cs : List Char) : Option Nat :=
  let marks := cs.takeWhile fun c => c == '$' || c == '@'
  let rest := cs.drop marks.length
  let quotes := runLength '\x22' rest
  let dollars := marks.count '$'
  let verbatim := marks.contains '@'
  if quotes = 0 then none
  else if quotes ≥ 3 ∧ ¬verbatim then
    stringLength [.raw quotes dollars 0 0] (rest.drop quotes) (marks.length + quotes)
  else if dollars ≤ 1 ∧ marks.count '@' ≤ 1 then
    stringLength [.quoted verbatim (dollars == 1)] (rest.drop 1) (marks.length + 1)
  else none

/-! ## Other tokens -/

/-- A character that a name may start with: a letter, `_`, or one outside ASCII. -/
def startsName (c : Char) : Bool :=
  c.isAlpha || c == '_' || (c.toNat ≥ 0x80 && !Text.isBlank c)

def continuesName (c : Char) : Bool := startsName c || c.isDigit

def restOfLine (cs : List Char) : Nat := (cs.takeWhile fun c => c != '\n' && c != '\r').length

/-- The characters of a comment up to its closing signs, counted on from `n`. -/
def blockLength : List Char → Nat → Option Nat
  | '*' :: '/' :: _, n => some (n + 2)
  | _ :: cs, n => blockLength cs (n + 1)
  | [], _ => none

/-- The characters of a character literal after its opening quote, counted on from `n`. -/
def literalLength : List Char → Nat → Option Nat
  | '\\' :: _ :: cs, n => literalLength cs (n + 2)
  | '\x27' :: _, n => if n = 0 then none else some (n + 1)
  | c :: cs, n => if c = '\n' then none else literalLength cs (n + 1)
  | [], _ => none

/-- The characters of a number: digits and letters, and a point before a digit. -/
def numberLength : List Char → Nat → Nat
  | '.' :: d :: cs, n => if d.isDigit then numberLength cs (n + 2) else n
  | c :: cs, n => if continuesName c then numberLength cs (n + 1) else n
  | [], n => n

/-- The words that make a line that starts with `#` a directive. -/
def directiveWords : List String :=
  ["if", "elif", "else", "endif", "define", "undef", "region", "endregion", "pragma", "nullable",
    "line", "error", "warning"]

/-- The word after the `#` of a directive. -/
def directiveWord (cs : List Char) : String :=
  String.ofList ((cs.dropWhile fun c => c == ' ' || c == '\t').takeWhile Char.isAlpha)

/-- The words of the directives that enclose what stands between them; all others take up their whole
line, with its terminator. -/
def conditionalWords : List String := ["if", "elif", "else", "endif"]

/-- The kind of the token that starts with `c` (`none` for a blank), and how many of the characters
after `c` it takes. -/
def lexeme (lineStart : Bool) (c : Char) (cs : List Char) : Option TokenKind × Nat :=
  if Text.isBlank c || c == '\uFEFF' then (none, 0)
  else
    let named : Option TokenKind × Nat :=
      if startsName c then (some .word, (cs.takeWhile continuesName).length)
      else if c == '@' && (cs.head?.map startsName).getD false then
        (some .word, (cs.takeWhile continuesName).length)
      else if c.isDigit then (some .number, numberLength cs 0)
      else if c == '$' || c == '@' || c == '\x60' || c == '\\' || c == '#' || c == '\x22' || c == '\x27'
      then (some .stray, 0)
      else if !c.isAlphanum && c.toNat < 0x80 && c.toNat > 0x20 then (some .sign, 0)
      else (some .stray, 0)
    match c, cs with
    | '/', '/' :: _ => (some .comment, restOfLine cs)
    | '/', '*' :: rest =>
      match blockLength rest 1 with
      | some n => (some .comment, n)
      | none => (some .stray, 0)
    | '=', '>' :: _ => (some .sign, 1)
    | '=', '=' :: _ => (some .sign, 1)
    | ':', ':' :: _ => (some .sign, 1)
    | '\x27', _ =>
      match literalLength cs 0 with
      | some n => (some .character, n)
      | none => (some .stray, 0)
    | '#', _ =>
      if lineStart && directiveWords.contains (directiveWord cs) then
        let line := restOfLine cs
        if conditionalWords.contains (directiveWord cs) then (some .directive, line)
        else
          match cs.drop line with
          | '\r' :: '\n' :: _ => (some .directive, line + 2)
          | '\n' :: _ => (some .directive, line + 1)
          | _ => (some .directive, line)
      else named
    | _, _ =>
      match stringLength? (c :: cs) with
      | some (n + 1) => (some .string, n)
      | _ => named

/-- The tokens of the characters from a place on; `lineStart` says that only blanks stand before them
on their line. -/
def scanFrom (at_ : Position) (lineStart : Bool) : List Char → List Token
  | [] => []
  | c :: cs =>
    let (kind, n) := lexeme lineStart c cs
    let taken := c :: cs.take n
    let next := taken.foldl Position.after at_
    match kind with
    | none => scanFrom next (lineStart || c == '\n') (cs.drop n)
    | some kind =>
      ⟨kind, String.ofList taken, ⟨at_, next⟩⟩ ::
        scanFrom next (taken.getLast?.getD c == '\n') (cs.drop n)
termination_by cs => cs.length
decreasing_by all_goals simp only [List.length_drop, List.length_cons]; omega

/-- The tokens of a source text. A first line that starts with `#!` is a comment. -/
def scan (source : String) : List Token :=
  match source.toList with
  | '#' :: '!' :: cs =>
    let line := '#' :: '!' :: cs.take (restOfLine cs)
    let span : Span := ⟨⟨0, 0, 0⟩, line.foldl Position.after ⟨0, 0, 0⟩⟩
    ⟨.comment, String.ofList line, span⟩ :: scanFrom span.stop false (cs.drop (restOfLine cs))
  | cs => scanFrom ⟨0, 0, 0⟩ true cs

def Token.isTrivia (t : Token) : Bool := t.kind == .comment || t.kind == .directive

/-- A sign or a word with this text. -/
def Token.isFixed (t : Token) (text : String) : Bool :=
  (t.kind == .sign || t.kind == .word) && t.text == text

/-- The word after the `#` of a directive, empty for other tokens. -/
def Token.directive (t : Token) : String :=
  if t.kind == .directive then directiveWord (t.text.toList.drop 1) else ""

end CodeCorpus.Syntax
