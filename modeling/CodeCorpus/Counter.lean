import CodeCorpus.Fault
import CodeCorpus.Text.Blank
import CodeCorpus.Text.Occurrence

/-!
# Token counters

A counter tells how many tokens a text has for a model. The counters here count in a plain unit; one
that follows a tokenizer's vocabulary is in `Counter.Tokenizer`.
-/

namespace CodeCorpus

/-- Counts the tokens of a text, or fails. -/
abbrev Counter := String → Except Fault Nat

inductive CountingUnit where
  | words
  | characters
  | bytes
  /-- The line ends. -/
  | newlines
  /-- Nothing at all. -/
  | nothing
  deriving DecidableEq, Repr

/-- The number of units in a text. -/
def CountingUnit.measure : CountingUnit → String → Nat
  | .words, s => (Text.words s).length
  | .characters, s => s.length
  | .bytes, s => s.utf8ByteSize
  | .newlines, s => s.toList.count '\n'
  | .nothing, _ => 0

namespace Counter

def ofUnit (unit : CountingUnit) : Counter := fun s => .ok (unit.measure s)

/-- Fails on the texts that contain `part`, and counts as before otherwise. -/
def refusing (part : String) (count : Counter) : Counter := fun s =>
  if Text.occursIn part s then .error (.embedding (.tokenizationFailed ("refused " ++ part)))
  else count s

end Counter

end CodeCorpus
