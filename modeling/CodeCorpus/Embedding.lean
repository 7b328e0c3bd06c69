import CodeCorpus.Action
import CodeCorpus.Record

/-!
# Embedding

A provider answers a text with vectors, or fails, breaks off, or takes too long. Embedding a text gives
the first vector of the answer, whose width must be the one the provider claims.
-/

namespace CodeCorpus

inductive Reply where
  | vectors (vs : List Vector32)
  | failed (reason : String)
  /-- The provider broke off. -/
  | broken (reason : String)
  /-- The answer did not come in time. -/
  | overdue

/-- An embedding model in a world. -/
structure Provider (ω : Type) where
  /-- The width of its vectors. -/
  dimension : Nat
  /-- The answer to a text within a number of seconds. -/
  reply : Nat → String → ω → Reply × ω

/-- The vector that an answer gives, for a claimed width and a time limit in seconds. -/
def Reply.vector (dimension timeout : Nat) : Reply → Except EmbeddingFault Vector32
  | .vectors [] => .error .missingVector
  | .vectors (v :: _) =>
    if v.length = dimension then .ok v else .error (.dimensionMismatch dimension v.length)
  | .failed reason => .error (.generationFailed reason)
  | .broken reason => .error (.generationFailed ("Embedding task panicked: " ++ reason))
  | .overdue => .error (.timeout timeout)

def Provider.embed {ω : Type} (p : Provider ω) (timeout : Nat) (text : String) : Action ω Vector32 :=
  fun w =>
    let (reply, w) := p.reply timeout text w
    match reply.vector p.dimension timeout with
    | .ok v => (.ok v, w)
    | .error f => (.error (.embedding f), w)

end CodeCorpus
