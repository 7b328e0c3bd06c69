import CodeCorpus.Numeral.Binary

/-!
# Decimals with fixed places

A value is written with a given number of places behind the point, rounded to the nearest such decimal, a
half to the even one.
-/

namespace CodeCorpus.Numeral

/-- A natural number of units of the last place. -/
def writePlaces (places units : Nat) : String :=
  let ds := Nat.toDigits 10 units
  let padded := List.replicate (places + 1 - ds.length) '0' ++ ds
  let (whole, fraction) := padded.splitAt (padded.length - places)
  String.ofList (if places = 0 then whole else whole ++ '.' :: fraction)

/-- `m * 2 ^ q` in units of the last place. -/
def unitsOf (places m : Nat) (q : Int) : Nat :=
  if q ≥ 0 then m * Nat.pow 2 q.toNat * Nat.pow 10 places
  else roundHalfEven (m * Nat.pow 10 places) (Nat.pow 2 (-q).toNat)

def fixed32 (places : Nat) (x : Float32) : String :=
  let sign := if isNegative32 x then "-" else ""
  match magnitude32 x with
  | .notANumber => "NaN"
  | .infinite => sign ++ "inf"
  | .finite m q => sign ++ writePlaces places (unitsOf places m q)

end CodeCorpus.Numeral
