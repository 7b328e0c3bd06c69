import CodeCorpus.Numeral.Binary

/-!
# Shortest decimal texts

A finite value is written with the fewest decimal digits that read back as the value; of several
such, with the digits nearest to it. Digits are written positionally, never with an exponent.
-/

namespace CodeCorpus.Numeral

/-- A decimal `digits * 10 ^ exponent`. -/
structure Decimal where
  digits : Nat
  exponent : Int
  deriving DecidableEq, Repr

/-- The ratios between which every value rounds to `m * 2 ^ q`, over the common denominator `4 * d`
where the value itself is `n / d`: the lower end, the value, the upper end, and the denominator.
Below a power of two the lower neighbour is half as far away. -/
def Format.interval (f : Format) (m : Nat) (q : Int) : Nat × Nat × Nat × Nat :=
  let (n, d) := if q ≥ 0 then (Nat.pow 2 q.toNat, 1) else (1, Nat.pow 2 (-q).toNat)
  let below := if m = Nat.pow 2 (f.bits - 1) ∧ q > f.least then 1 else 2
  ((4 * m - below) * n, 4 * m * n, (4 * m + 2) * n, 4 * d)

/-- `x / (den * 10 ^ e)` rounded down, and the scaled denominator with the numerator it goes with. -/
def scale (x den : Nat) (e : Int) : Nat × Nat :=
  if e ≥ 0 then (x, den * Nat.pow 10 e.toNat) else (x * Nat.pow 10 (-e).toNat, den)

/-- The decimal on the grid of step `10 ^ e` that reads back as `m * 2 ^ q`, if there is one: of the
two neighbours of the value the nearer, the even one on a tie. -/
def Format.onGrid? (f : Format) (m : Nat) (q : Int) (e : Int) : Option Nat :=
  let (low, value, high, den) := f.interval m q
  let (v, d) := scale value den e
  let (l, _) := scale low den e
  let (h, _) := scale high den e
  let inside (k : Nat) : Bool :=
    if m % 2 = 0 then l ≤ k * d && k * d ≤ h else l < k * d && k * d < h
  let lower := v / d
  let nearest := roundHalfEven v d
  let other := if nearest = lower then lower + 1 else lower
  if nearest > 0 && inside nearest then some nearest
  else if other > 0 && inside other then some other
  else none

/-- The least `e` with `num / den < 10 ^ e`, searched downwards from `e`. -/
def magnitudeFrom (num den : Nat) (e : Int) : Nat → Int
  | 0 => e
  | fuel + 1 =>
    let (x, d) := scale num den (e - 1)
    if x < d then magnitudeFrom num den (e - 1) fuel else e

/-- The first grid with a decimal that reads back, from the coarsest on. -/
def Format.shortestFrom (f : Format) (m : Nat) (q : Int) (e : Int) : Nat → Decimal
  | 0 => ⟨m, q⟩
  | fuel + 1 =>
    match f.onGrid? m q e with
    | some k => ⟨k, e⟩
    | none => f.shortestFrom m q (e - 1) fuel

/-- The shortest decimal that reads back as `m * 2 ^ q`. -/
def Format.shortest (f : Format) (m : Nat) (q : Int) : Decimal :=
  if m = 0 then ⟨0, 0⟩
  else
    let (_, value, _, den) := f.interval m q
    let guess : Int := ((value.log2 : Int) - (den.log2 : Int) + 1) * 30103 / 100000 + 2
    let top := magnitudeFrom value den guess 8
    f.shortestFrom m q (top - 1) 20

/-- A decimal without exponent: `120`, `0.012`. -/
def Decimal.toText (x : Decimal) : String :=
  let ds := Nat.toDigits 10 x.digits
  if x.exponent ≥ 0 then String.ofList (ds ++ List.replicate x.exponent.toNat '0')
  else
    let places := (-x.exponent).toNat
    let padded := List.replicate (places + 1 - ds.length) '0' ++ ds
    let (whole, fraction) := padded.splitAt (padded.length - places)
    String.ofList (whole ++ '.' :: fraction)

/-- The text of a value with its sign: `NaN` has none. -/
def Format.text (f : Format) (negative : Bool) (v : Magnitude) : String :=
  match v with
  | .notANumber => "NaN"
  | .infinite => if negative then "-inf" else "inf"
  | .finite m q => (if negative then "-" else "") ++ (f.shortest m q).toText

def text32 (x : Float32) : String := single.text (isNegative32 x) (magnitude32 x)

end CodeCorpus.Numeral
