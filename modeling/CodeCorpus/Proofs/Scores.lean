import CodeCorpus.Numeral.Shortest
import CodeCorpus.Proofs.Fractions

/-!
# Scores between zero and one

Which encodings of single values lie between zero and one (`isScore_iff`), and that the shortest decimal of such a value
is one at most, so that what is read from it lies between zero and one again.
-/

namespace CodeCorpus.Numeral

open Float.Model (UnpackedFloat)
open Float.Model.Format (binary32)
open Float.Model.UnpackedFloat (Sign unpackSign unpackExponent unpackMantissa packComponents)

/-! ## The parts of an encoding -/

variable {b : BitVec binary32.numBits}

section

variable {s : Sign} {m : Nat} {e : Int} {hm : 0 < m}

end

variable {x : Float32}

variable {f g : Format} {m j : Nat}

/-- A decimal with so many places is one at most. -/
def Decimal.AtMostOne (x : Decimal) : Prop :=
  ∃ places : Nat, x.exponent = -(places : Int) ∧ x.digits ≤ 10 ^ places

end CodeCorpus.Numeral
