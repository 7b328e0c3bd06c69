/-!
# Binary floating-point values

A finite value is `m * 2 ^ q`. A format bounds the bits of `m` and the range of `q`; a ratio of
naturals is rounded to the nearest value of the format, a half to the even `m`.
-/

namespace CodeCorpus.Numeral

/-- A binary format: the bits of a significand, and the least and the greatest exponent of two. -/
structure Format where
  bits : Nat
  least : Int
  greatest : Int

def single : Format := ⟨24, -149, 104⟩

def double : Format := ⟨53, -1074, 971⟩

/-- A non-negative value of a format. -/
inductive Magnitude where
  | finite (significand : Nat) (exponent : Int)
  | infinite
  | notANumber
  deriving DecidableEq, Repr

/-- `num / den` to the nearest natural, a half to the even one. -/
def roundHalfEven (num den : Nat) : Nat :=
  let d := num / den
  let r := num % den
  if 2 * r < den then d else if 2 * r = den then d + d % 2 else d + 1

/-- The exponent of the power of two at or below `num / den`. -/
def floorLog2 (num den : Nat) : Int :=
  let e : Int := (num.log2 : Int) - (den.log2 : Int)
  let below : Bool :=
    if e ≥ 0 then decide (num < den * Nat.pow 2 e.toNat)
    else decide (num * Nat.pow 2 (-e).toNat < den)
  if below then e - 1 else e

/-- The value of the format nearest to `num / den`; it is infinite from half a step above the
greatest finite one. -/
def Format.round (f : Format) (num den : Nat) : Magnitude :=
  if num = 0 then .finite 0 f.least
  else
    let q := max (floorLog2 num den - ((f.bits : Int) - 1)) f.least
    let m := if q ≥ 0 then roundHalfEven num (den * Nat.pow 2 q.toNat)
      else roundHalfEven (num * Nat.pow 2 (-q).toNat) den
    let (m, q) := if m = Nat.pow 2 f.bits then (Nat.pow 2 (f.bits - 1), q + 1) else (m, q)
    if q > f.greatest then .infinite else .finite m q

/-- The value of the format nearest to `m * 10 ^ e`. Exponents far outside the range of every format
are settled by the number of digits alone. -/
def Format.ofDecimal (f : Format) (m : Nat) (e : Int) : Magnitude :=
  if m = 0 then .finite 0 f.least
  else
    let size : Int := (Nat.toDigits 10 m).length + e
    if size > 400 then .infinite
    else if size < -400 then .finite 0 f.least
    else if e ≥ 0 then f.round (m * Nat.pow 10 e.toNat) 1
    else f.round m (Nat.pow 10 (-e).toNat)

def Magnitude.narrow (v : Magnitude) (f : Format) : Magnitude :=
  match v with
  | .finite m q => if q ≥ 0 then f.round (m * Nat.pow 2 q.toNat) 1 else f.round m (Nat.pow 2 (-q).toNat)
  | other => other

/-- The encoding of a magnitude, without the sign bit. -/
def Format.encode (f : Format) : Magnitude → Nat
  | .finite m q =>
    if m < Nat.pow 2 (f.bits - 1) then m
    else (q - f.least + 1).toNat * Nat.pow 2 (f.bits - 1) + (m - Nat.pow 2 (f.bits - 1))
  | .infinite => (f.greatest - f.least + 2).toNat * Nat.pow 2 (f.bits - 1)
  | .notANumber => (f.greatest - f.least + 2).toNat * Nat.pow 2 (f.bits - 1) + Nat.pow 2 (f.bits - 2)

/-- The magnitude that an encoding without sign bit stands for. -/
def Format.decode (f : Format) (n : Nat) : Magnitude :=
  let high := n / Nat.pow 2 (f.bits - 1)
  let low := n % Nat.pow 2 (f.bits - 1)
  if high = (f.greatest - f.least + 2).toNat then if low = 0 then .infinite else .notANumber
  else if high = 0 then .finite low f.least
  else .finite (low + Nat.pow 2 (f.bits - 1)) (f.least + ((high : Int) - 1))

def toFloat32 (negative : Bool) (v : Magnitude) : Float32 :=
  Float32.ofBits ((single.encode v + if negative then 0x80000000 else 0).toUInt32)

def magnitude32 (x : Float32) : Magnitude := single.decode (x.toBits.toNat % 0x80000000)

def isNegative32 (x : Float32) : Bool := x.toBits.toNat ≥ 0x80000000

/-- The natural nearest to `n` that is a 64-bit value. -/
def nearestDouble (n : Nat) : Nat :=
  match double.round n 1 with
  | .finite m q => if q ≥ 0 then m * Nat.pow 2 q.toNat else m / Nat.pow 2 (-q).toNat
  | _ => n

/-- The 64-bit encoding of the nearest value to `num / den`, both taken as 64-bit values first; a zero
denominator gives infinity, or no number when the numerator is zero too. -/
def ratioBits64 (num den : Nat) : Nat :=
  if den = 0 then double.encode (if num = 0 then .notANumber else .infinite)
  else double.encode (double.round (nearestDouble num) (nearestDouble den))

end CodeCorpus.Numeral
