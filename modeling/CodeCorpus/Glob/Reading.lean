import CodeCorpus.Glob

/-!
# Written glob patterns

`?` is one byte, `*` any bytes, `**` between slashes any directories, `[…]` one of some bytes, `{…,…}`
one of several patterns, and a backslash takes the special meaning off the next character.
-/

namespace CodeCorpus

/-- Why a text writes no glob. -/
inductive GlobFault where
  | unclosedClass
  | invalidRange (first last : Char)
  | unopenedGroup
  | unclosedGroup
  | danglingEscape
  deriving DecidableEq, Repr

def GlobFault.message : GlobFault → String
  | .unclosedClass => "unclosed character class; missing ']'"
  | .invalidRange first last => s!"invalid range; '{first}' > '{last}'"
  | .unopenedGroup => "unopened alternate group; missing '\x7b' (maybe escape '\x7d' with '[\x7d]'?)"
  | .unclosedGroup => "unclosed alternate group; missing '\x7d' (maybe escape '\x7b' with '[\x7b]'?)"
  | .danglingEscape => "dangling '\\'"

namespace Glob

/-- A class of bytes that is being read. -/
structure OpenClass where
  negated : Bool
  /-- Nothing of the class has been read yet, a sign of negation aside. -/
  atStart : Bool
  /-- A range has its first character and a `-`. -/
  inRange : Bool
  /-- The ranges read, the last one first. -/
  ranges : List (Char × Char)

/-- A pattern that is being read. -/
structure Reading where
  /-- The tokens of the current branch, the last one first. -/
  current : List GlobToken := []
  /-- The groups around it, the innermost first: the finished branches of the group, the last one first,
  and the tokens before it, the last one first. -/
  outer : List (List (List GlobToken) × List GlobToken) := []

namespace Reading

def push (r : Reading) (t : GlobToken) : Reading := { r with current := t :: r.current }

/-- A group opens. -/
def opened (r : Reading) : Reading := ⟨[], ([], r.current) :: r.outer⟩

/-- A `,`: inside a group another branch begins. -/
def comma (r : Reading) : Reading :=
  match r.outer with
  | [] => r.push (.literal ',')
  | (branches, before) :: outer => ⟨[], (r.current.reverse :: branches, before) :: outer⟩

/-- A group closes. -/
def closed (r : Reading) : Except GlobFault Reading :=
  match r.outer with
  | [] => .error .unopenedGroup
  | (branches, before) :: outer =>
    .ok ⟨.alternates (r.current.reverse :: branches).reverse :: before, outer⟩

/-- Two `*` that stand for no directories. -/
def twoStars (r : Reading) : Reading := (r.push .zeroOrMore).push .zeroOrMore

/-- Two `*` after tokens and a `/`: directories in between, or what is below a directory. The `/` before
them is part of their token, unless there is one of their kind already. -/
def recursive (atEnd : Bool) (r : Reading) : Reading :=
  match r.current with
  | .recursiveStart :: _ => r
  | .recursiveEnd :: _ => r
  | _ :: before => { r with current := (if atEnd then .recursiveEnd else .recursiveMiddle) :: before }
  | [] => r

/-- Whether two `*` after `before` may stand for directories. -/
def mayRecurse (before : Option Char) (r : Reading) : Bool :=
  before == some '/' || (!r.outer.isEmpty && (before == some ',' || before == some '\x7b'))

end Reading

/-- The class with one more character; a `]` at its start and a `-` that ends no range stand for
themselves. -/
def OpenClass.add (k : OpenClass) (c : Char) : Except GlobFault OpenClass :=
  let extend (last : Char) : Except GlobFault OpenClass :=
    match k.ranges with
    | (first, _) :: ranges =>
      if last < first then .error (.invalidRange first last)
      else .ok { k with atStart := false, inRange := false, ranges := (first, last) :: ranges }
    | [] => .ok { k with atStart := false, inRange := false, ranges := [(last, last)] }
  if c = '-' ∧ ¬k.atStart ∧ ¬k.inRange then .ok { k with inRange := true }
  else if k.inRange then extend c
  else .ok { k with atStart := false, ranges := (c, c) :: k.ranges }

def OpenClass.token (k : OpenClass) : GlobToken :=
  .oneOf k.negated (if k.inRange then ('-', '-') :: k.ranges else k.ranges).reverse

/-- The tokens that characters write; `before` is the character before them, and `open_` the class they
are in, if any. -/
def readFrom (before : Option Char) (open_ : Option OpenClass) (r : Reading) :
    List Char → Except GlobFault (List GlobToken)
  | [] =>
    if open_.isSome then .error .unclosedClass
    else if r.outer.isEmpty then .ok r.current.reverse else .error .unclosedGroup
  | c :: cs =>
    match open_ with
    | some k =>
      if c = ']' ∧ ¬k.atStart then readFrom (some c) none (r.push k.token) cs
      else
        match k.add c with
        | .ok k => readFrom (some c) (some k) r cs
        | .error e => .error e
    | none =>
      match c, cs with
      | '?', cs => readFrom (some '?') none (r.push .any) cs
      | '*', '*' :: rest =>
        if r.current.isEmpty then
          match rest with
          | [] => readFrom (some '*') none (r.push .recursiveStart) []
          | '/' :: rest => readFrom (some '/') none (r.push .recursiveStart) rest
          | rest => readFrom (some '*') none r.twoStars rest
        else if !r.mayRecurse before then readFrom (some '*') none r.twoStars rest
        else
          match rest with
          | [] => readFrom (some '*') none (r.recursive true) []
          | '/' :: rest => readFrom (some '/') none (r.recursive false) rest
          | d :: rest =>
            if !r.outer.isEmpty && (d == ',' || d == '\x7d') then
              readFrom (some '*') none (r.recursive true) (d :: rest)
            else readFrom (some '*') none r.twoStars (d :: rest)
      | '*', cs => readFrom (some '*') none (r.push .zeroOrMore) cs
      | '[', '!' :: cs => readFrom (some '!') (some ⟨true, true, false, []⟩) r cs
      | '[', '^' :: cs => readFrom (some '^') (some ⟨true, true, false, []⟩) r cs
      | '[', cs => readFrom (some '[') (some ⟨false, true, false, []⟩) r cs
      | '\x7b', cs => readFrom (some '\x7b') none r.opened cs
      | '\x7d', cs =>
        match r.closed with
        | .ok r => readFrom (some '\x7d') none r cs
        | .error e => .error e
      | ',', cs => readFrom (some ',') none r.comma cs
      | '\\', d :: cs => readFrom (some d) none (r.push (.literal d)) cs
      | '\\', [] => .error .danglingEscape
      | c, cs => readFrom (some c) none (r.push (.literal c)) cs
termination_by cs => cs.length
decreasing_by all_goals simp_all only [List.length_cons]; omega

def read (separates : Bool) (pattern : String) : Except GlobFault Glob :=
  (readFrom none none {} pattern.toList).map fun tokens => ⟨tokens, separates⟩

/-- The message for a text that writes no glob. -/
def faultMessage (pattern : String) (f : GlobFault) : String :=
  s!"error parsing glob '{pattern}': {f.message}"

end Glob

end CodeCorpus
