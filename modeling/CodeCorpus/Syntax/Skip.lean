import CodeCorpus.Syntax.Token

/-!
# Passing over tokens

Declarations hold types, parameter lists, bodies and initialisers whose inside does not matter for
the outline of a file. They are passed over with their brackets balanced; whether they were is
reported, so that the enclosing declaration can be marked.
-/

namespace CodeCorpus.Syntax

abbrev Tokens := List Token

/-- The tokens after the comments and directives they start with. -/
def peel (ts : Tokens) : Tokens := ts.dropWhile Token.isTrivia

/-- The next token that is no comment and no directive. -/
def next? (ts : Tokens) : Option Token := (peel ts).head?

def nextIs (text : String) (ts : Tokens) : Bool := ((next? ts).map (Token.isFixed · text)).getD false

/-- The tokens after the next one, if that is this sign or word. -/
def after? (text : String) (ts : Tokens) : Option Tokens :=
  match peel ts with
  | t :: rest => if t.isFixed text then some rest else none
  | [] => none

/-- The tokens after the next one, if that is this sign or word, and all of them otherwise. -/
def orAfter (text : String) (ts : Tokens) : Tokens := (after? text ts).getD ts

/-- The stretch between two lists of tokens of which the second is an end of the first, less the
comments at its ends. -/
def spanOf (ts rest : Tokens) : Span :=
  let taken := (ts.take (ts.length - rest.length)).filter fun t => !t.isTrivia
  ⟨(taken.head?.map fun t => t.span.start).getD default,
    (taken.getLast?.map fun t => t.span.stop).getD default⟩

/-! ## Brackets -/

def closer? : String → Option String
  | "(" => some ")"
  | "[" => some "]"
  | "\x7b" => some "\x7d"
  | _ => none

def isCloser (text : String) : Bool := text == ")" || text == "]" || text == "\x7d"

/-- Passes over tokens until the closers of `stack` have been met, the innermost first, and, for a
`statement`, until a `;` outside all brackets. A closer that belongs further out closes what is open
inside; an unmet `\x7d` ends everything and is left in place. Reports whether all was balanced. -/
def skipBalanced (statement : Bool) (stack : List String) (ok : Bool) : Tokens → Tokens × Bool
  | [] => ([], ok && stack.isEmpty && !statement)
  | t :: ts =>
    if t.isTrivia then skipBalanced statement stack ok ts
    else if t.kind == .stray then skipBalanced statement stack false ts
    else if t.kind != .sign then skipBalanced statement stack ok ts
    else
      match closer? t.text, stack with
      | some c, _ => skipBalanced statement (c :: stack) ok ts
      | none, [] =>
        if t.text == ";" then (ts, ok)
        else if t.text == "\x7d" then (t :: ts, false)
        else skipBalanced statement [] (ok && !isCloser t.text) ts
      | none, top :: outer =>
        if t.text == top then
          if outer.isEmpty && !statement then (ts, ok) else skipBalanced statement outer ok ts
        else if isCloser t.text then
          if outer.contains t.text then
            let left := (outer.dropWhile (· != t.text)).drop 1
            if left.isEmpty && !statement then (ts, false) else skipBalanced statement left false ts
          else if t.text == "\x7d" then (t :: ts, false)
          else skipBalanced statement stack false ts
        else skipBalanced statement stack ok ts

/-- Passes over a group whose opening bracket has been read. -/
def skipGroup (close : String) (ts : Tokens) : Tokens × Bool := skipBalanced false [close] true ts

/-- Passes over everything up to a `;` outside brackets, that one included. -/
def skipStatement (ts : Tokens) : Tokens × Bool := skipBalanced true [] true ts

/-- Passes over base initialisers and constraints up to the body or `;` of a declaration. -/
def skipClauses (stack : List String) : Tokens → Tokens
  | [] => []
  | t :: ts =>
    if t.kind != .sign then skipClauses stack ts
    else
      match stack with
      | [] =>
        if t.text == "\x7b" || t.text == "=>" || t.text == ";" || isCloser t.text then t :: ts
        else
          match closer? t.text with
          | some c => skipClauses [c] ts
          | none => skipClauses [] ts
      | top :: outer =>
        if t.text == top then skipClauses outer ts
        else
          match closer? t.text with
          | some c => skipClauses (c :: stack) ts
          | none => skipClauses stack ts

/-- Passes over a body: a block, an arrow with an expression, or a `;` alone. -/
def skipBody (ts : Tokens) : Tokens × Bool :=
  match peel ts with
  | t :: rest =>
    if t.isFixed "\x7b" then skipGroup "\x7d" rest
    else if t.isFixed "=>" then skipStatement rest
    else if t.isFixed ";" then (rest, true)
    else (ts, false)
  | [] => (ts, false)

/-! ## Names and types -/

/-- The words that are never names, types aside. -/
def reservedWords : List String := [
  "abstract", "as", "base", "break", "case", "catch", "checked", "class", "const", "continue",
  "default", "delegate", "do", "else", "enum", "event", "explicit", "extern", "false", "finally",
  "fixed", "for", "foreach", "goto", "if", "implicit", "in", "interface", "internal", "is", "lock",
  "namespace", "new", "null", "operator", "out", "override", "params", "private", "protected",
  "public", "readonly", "ref", "return", "sealed", "sizeof", "stackalloc", "static", "struct",
  "switch", "this", "throw", "true", "try", "typeof", "unchecked", "unsafe", "using", "virtual",
  "volatile", "while"]

def predefinedTypes : List String := [
  "bool", "byte", "char", "decimal", "double", "float", "int", "long", "object", "sbyte", "short",
  "string", "uint", "ulong", "ushort", "void"]

def Token.isName (t : Token) : Bool :=
  t.kind == .word && !reservedWords.contains t.text && !predefinedTypes.contains t.text

def Token.isTypeName (t : Token) : Bool := t.kind == .word && !reservedWords.contains t.text

/-- Passes over type arguments or parameters whose opening `<` has been read; none if something
stands there that no type holds. -/
def skipAngles? : List String → Tokens → Option Tokens
  | [], ts => some ts
  | _ :: _, [] => none
  | top :: outer, t :: ts =>
    if t.isTrivia then skipAngles? (top :: outer) ts
    else if t.kind == .sign then
      if t.text == top then
        match outer with
        | [] => some ts
        | _ => skipAngles? outer ts
      else if t.text == "<" then skipAngles? (">" :: top :: outer) ts
      else if t.text == "(" then skipAngles? (")" :: top :: outer) ts
      else if t.text == "[" then skipAngles? ("]" :: top :: outer) ts
      else if t.text == ";" || t.text == "\x7b" || isCloser t.text then none
      else if top != ">" || ["," , ".", "::", "?", "*", ":"].contains t.text then
        skipAngles? (top :: outer) ts
      else none
    else if top != ">" then skipAngles? (top :: outer) ts
    else if t.isTypeName || ["in", "out", "ref", "readonly"].contains t.text then
      skipAngles? (top :: outer) ts
    else none

/-- The tokens after type arguments, if there are any. -/
def orAngles (ts : Tokens) : Tokens :=
  match after? "<" ts with
  | some rest => (skipAngles? [">"] rest).getD ts
  | none => ts

/-- The tokens after the commas and the closing bracket of an array rank. -/
def skipRank? : Tokens → Option Tokens
  | [] => none
  | t :: ts =>
    if t.isFixed "," then skipRank? ts else if t.isFixed "]" then some ts else none

/-- Passes over the marks of nullable, pointer and array types. -/
def skipSuffixes (ts : Tokens) : Nat → Tokens
  | 0 => ts
  | fuel + 1 =>
    match after? "?" ts, after? "*" ts, after? "[" ts with
    | some rest, _, _ | none, some rest, _ => skipSuffixes rest fuel
    | none, none, some rest =>
      match skipRank? (peel rest) with
      | some rest => skipSuffixes rest fuel
      | none => ts
    | none, none, none => ts

/-- Passes over the further parts of a qualified name. -/
def skipQualified (ts : Tokens) : Nat → Tokens
  | 0 => ts
  | fuel + 1 =>
    let rest? := (after? "." ts).or (after? "::" ts)
    match rest?.map peel with
    | some (t :: rest) => if t.isName then skipQualified (orAngles rest) fuel else ts
    | _ => ts

/-- The tokens after the calling convention of a function pointer, if it has one. -/
def orConvention (ts : Tokens) : Tokens :=
  let ts := orAfter "unmanaged" (orAfter "managed" ts)
  match after? "[" ts with
  | some names => (skipGroup "]" names).1
  | none => ts

def skipType? (ts : Tokens) : Option Tokens :=
  let ts := orAfter "readonly" (orAfter "ref" ts)
  let finish (rest : Tokens) : Tokens := skipSuffixes rest rest.length
  match peel ts with
  | [] => none
  | t :: rest =>
    if t.isFixed "(" then
      let (rest, ok) := skipGroup ")" rest
      if ok then some (finish rest) else none
    else if t.isFixed "delegate" then
      (((after? "*" rest).map orConvention).bind (after? "<")).bind (skipAngles? [">"]) |>.map finish
    else if t.isTypeName then
      let rest := orAngles rest
      some (finish (skipQualified rest rest.length))
    else none

end CodeCorpus.Syntax
