import CodeCorpus.Record

/-!
# Similarity of vectors

Vectors are compared by the cosine of the angle between them, computed in single precision in the order
of their elements. Scores are ordered as encodings with a sign are: negative values below positive ones,
and a score that is no number above all others.
-/

namespace CodeCorpus.Similarity

/-- The sum of single-precision values from the left. -/
def sum (xs : List Float32) : Float32 := xs.foldl (· + ·) (Float32.ofBits 0x80000000)

def norm (xs : Vector32) : Float32 := (sum (xs.map fun x => x * x)).sqrt

/-- The distance from 1 to the next single-precision value. -/
def epsilon : Float32 := Float32.ofBits 0x34000000

/-- The cosine similarity of two vectors; 0 if their widths differ or one is too short. -/
def cosine (a b : Vector32) : Float32 :=
  if a.length ≠ b.length ∨ a.isEmpty then 0
  else
    let dot := sum (List.zipWith (· * ·) a b)
    let na := norm a
    let nb := norm b
    if na < epsilon || nb < epsilon then 0 else dot / (na * nb)

/-- The place of a score in the order of all scores. -/
def rank (x : Float32) : Nat :=
  let n := x.toBits.toNat
  if n < 0x80000000 then n + 0x80000000 else 0xFFFFFFFF - n

/-- Scored items, the best first; items with equal scores keep their order. -/
def bestFirst (xs : List (α × Float32)) : List (α × Float32) :=
  xs.mergeSort fun a b => decide (rank b.2 ≤ rank a.2)

end CodeCorpus.Similarity
