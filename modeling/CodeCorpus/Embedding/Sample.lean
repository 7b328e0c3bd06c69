import CodeCorpus.Embedding
import CodeCorpus.Text.Occurrence

/-!
# A sample embedder

An embedder that needs no model. Its vectors count given words in the text, or measure the text's bytes
when there are none. It can be told to fail in each of the ways a provider can.
-/

namespace CodeCorpus

/-- How the sample embedder answers the texts that it does not refuse. -/
inductive SampleMode where
  | ordinary
  /-- No vector. -/
  | empty
  /-- A second vector after the first. -/
  | doubled
  /-- Each vector cut to its first element. -/
  | short
  | failing
  | breaking
  deriving DecidableEq, Repr

/-- The settings of the sample embedder. -/
structure SampleEmbedder where
  /-- The words whose occurrences it counts. -/
  words : List String := []
  /-- The width it claims, if that is not the width of its vectors. -/
  claimed : Option Nat := none
  mode : SampleMode := .ordinary
  /-- A text that it refuses. -/
  refused : Option String := none
  /-- The time it takes, in milliseconds. -/
  delay : Nat := 0

namespace SampleEmbedder

def vector (e : SampleEmbedder) (text : String) : Vector32 :=
  match e.words with
  | _ :: _ => (e.words.map fun w => Float32.ofNat (Text.occurrences w text)) ++ [1.0]
  | [] =>
    let bytes := text.toUTF8
    let sum := bytes.toList.foldl (fun n b => n + b.toNat) 0
    [1.0, Float32.ofNat (sum % 97) / 97.0, Float32.ofNat (bytes.size % 13)]

def dimension (e : SampleEmbedder) : Nat :=
  e.claimed.getD (if e.words.isEmpty then 3 else e.words.length + 1)

/-- Whether the embedder answers a text only after a number of seconds. -/
def isOverdue (e : SampleEmbedder) (timeout : Nat) : Bool := 0 < e.delay && timeout * 1000 ≤ e.delay

/-- Whether the embedder refuses a text before it looks at it. -/
def refuses (e : SampleEmbedder) (text : String) : Bool :=
  (e.refused.map fun part => Text.occursIn part text).getD false

/-- The answer to a text that has been recorded. -/
def respond (e : SampleEmbedder) (text : String) : Reply :=
  match e.mode with
  | .ordinary => .vectors [e.vector text]
  | .empty => .vectors []
  | .doubled => .vectors [e.vector text, e.vector text]
  | .short => .vectors [(e.vector text).take 1]
  | .failing => .failed "model unavailable"
  | .breaking => .broken "broken off"

/-- The answer to a text, and whether the text was recorded. -/
def reply (e : SampleEmbedder) (timeout : Nat) (text : String) : Reply × Bool :=
  if e.isOverdue timeout then (.overdue, false)
  else if e.refuses text then
    (.failed ("model unavailable: refusing " ++ e.refused.getD ""), false)
  else (e.respond text, true)

end SampleEmbedder

end CodeCorpus
