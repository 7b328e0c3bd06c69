/-!
# Occurrences of one text in another

Texts are compared character by character; the empty text occurs everywhere.
-/

namespace CodeCorpus.Text

/-- What follows `pat` at the start of the characters, when they start with it. -/
def afterStart : List Char → List Char → Option (List Char)
  | [], cs => some cs
  | _ :: _, [] => none
  | p :: pat, c :: cs => if p = c then afterStart pat cs else none

/-- The characters before the first occurrence of `pat` and those after it. -/
def cutAt (pat : List Char) : List Char → Option (List Char × List Char)
  | [] => if pat.isEmpty then some ([], []) else none
  | c :: cs =>
    match afterStart pat (c :: cs) with
    | some rest => some ([], rest)
    | none => (cutAt pat cs).map fun (before, rest) => (c :: before, rest)

/-- Whether `part` occurs in `s`. -/
def occursIn (part s : String) : Bool := (cutAt part.toList s.toList).isSome

/-- The characters with every `a` written as `b`. -/
def substitute (a b : Char) (s : String) : String := s.map fun c => if c = a then b else c

/-- The number of occurrences of `pat` that do not overlap, found from the left; `skip` characters
belong to an occurrence already counted. -/
def countFrom (pat : List Char) (skip : Nat) : List Char → Nat
  | [] => 0
  | c :: cs =>
    match skip with
    | n + 1 => countFrom pat n cs
    | 0 =>
      if (afterStart pat (c :: cs)).isSome then 1 + countFrom pat (pat.length - 1) cs
      else countFrom pat 0 cs

/-- The number of occurrences of `part` in `s` that do not overlap. The empty text stands before
each character and at the end. -/
def occurrences (part s : String) : Nat :=
  if part.isEmpty then s.length + 1 else countFrom part.toList 0 s.toList

end CodeCorpus.Text
