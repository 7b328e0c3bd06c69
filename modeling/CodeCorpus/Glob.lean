/-!
# Glob patterns

A glob is a list of tokens. What a token can match at the start of a byte sequence is given by the
sequences that may be left over; a glob matches when nothing can be left over. Patterns match the bytes
of a path, so that a token for one character stands for one byte.
-/

namespace CodeCorpus

inductive GlobToken where
  | literal (c : Char)
  /-- One byte. -/
  | any
  /-- Any bytes. -/
  | zeroOrMore
  /-- Any leading directories. -/
  | recursiveStart
  /-- Anything below a directory. -/
  | recursiveEnd
  /-- Any directories in between. -/
  | recursiveMiddle
  /-- One byte of the bytes in the ranges, or one that is in none. -/
  | oneOf (negated : Bool) (ranges : List (Char × Char))
  /-- One of several branches. -/
  | alternates (branches : List (List GlobToken))
  deriving Repr

structure Glob where
  tokens : List GlobToken
  /-- Whether only the tokens for directories match a `/`. -/
  separates : Bool
  deriving Repr

namespace Glob

/-- The byte of `/`. -/
def slash : UInt8 := 0x2F

/-- All ends of a sequence, the sequence itself first. -/
def ends : List UInt8 → List (List UInt8)
  | [] => [[]]
  | b :: bs => (b :: bs) :: ends bs

/-- The ends of a sequence that no `/` comes before. -/
def endsOfPart : List UInt8 → List (List UInt8)
  | [] => [[]]
  | b :: bs => (b :: bs) :: if b == slash then [] else endsOfPart bs

/-- What follows each `/` of a sequence. -/
def afterSlashes : List UInt8 → List (List UInt8)
  | [] => []
  | b :: bs => if b == slash then bs :: afterSlashes bs else afterSlashes bs

def charBytes (c : Char) : List UInt8 := (String.ofList [c]).toUTF8.toList

/-- The sequence after some bytes, if it starts with them. -/
def after? : List UInt8 → List UInt8 → Option (List UInt8)
  | [], bs => some bs
  | _ :: _, [] => none
  | a :: as, b :: bs => if a == b then after? as bs else none

/-- The ranges of bytes that a range of characters stands for: those of one byte as they are, of others
each byte for itself and the range from the last byte of the first to the first byte of the last. -/
def byteRanges (range : Char × Char) : List (UInt8 × UInt8) :=
  let first := charBytes range.1
  let last := charBytes range.2
  if range.1 = range.2 then first.map fun b => (b, b)
  else
    (first.dropLast.map fun b => (b, b)) ++ [((first.getLast?).getD 0, (last.head?).getD 0)] ++
      ((last.drop 1).map fun b => (b, b))

def inRanges (ranges : List (Char × Char)) (b : UInt8) : Bool :=
  (ranges.flatMap byteRanges).any fun r => r.1 ≤ b && b ≤ r.2

/-- Sequences of which no two have the same length; those here are ends of one sequence. -/
def distinct (xss : List (List UInt8)) : List (List UInt8) :=
  xss.foldl (fun kept xs => if kept.any (·.length == xs.length) then kept else kept ++ [xs]) []

mutual

/-- What may be left over when a token matches at the start of a sequence. -/
def tokenRests (separates : Bool) (bs : List UInt8) : GlobToken → List (List UInt8)
  | .literal c => (after? (charBytes c) bs).toList
  | .any =>
    match bs with
    | b :: rest => if separates && b == slash then [] else [rest]
    | [] => []
  | .zeroOrMore => if separates then endsOfPart bs else ends bs
  | .recursiveStart => bs :: afterSlashes bs
  | .recursiveEnd =>
    match bs with
    | b :: rest => if b == slash then ends rest else []
    | [] => []
  | .recursiveMiddle =>
    match bs with
    | b :: rest => if b == slash then rest :: afterSlashes rest else []
    | [] => []
  | .oneOf negated ranges =>
    match bs with
    | b :: rest => if inRanges ranges b != negated then [rest] else []
    | [] => []
  | .alternates branches => distinct (branchRests separates bs (branches.all List.isEmpty) branches)

/-- What may be left over when one of the branches matches. Empty branches do not count, unless there
are no others. -/
def branchRests (separates : Bool) (bs : List UInt8) (allEmpty : Bool) :
    List (List GlobToken) → List (List UInt8)
  | [] => if allEmpty then [bs] else []
  | [] :: others => branchRests separates bs allEmpty others
  | branch :: others =>
    sequenceRests separates [bs] branch ++ branchRests separates bs allEmpty others

/-- What may be left over when tokens match one after the other, from any of several sequences. -/
def sequenceRests (separates : Bool) (bss : List (List UInt8)) : List GlobToken → List (List UInt8)
  | [] => bss
  | t :: ts =>
    sequenceRests separates (distinct (bss.flatMap fun bs => tokenRests separates bs t)) ts

end

/-- Whether the pattern matches a whole path. A lone `**` matches everything. -/
def isMatch (g : Glob) (path : String) : Bool :=
  match g.tokens with
  | [.recursiveStart] => true
  | tokens => (sequenceRests g.separates [path.toUTF8.toList] tokens).any List.isEmpty

end Glob

end CodeCorpus
