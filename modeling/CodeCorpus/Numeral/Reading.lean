import CodeCorpus.Numeral.Binary

/-!
# Reading numerals

The written forms of naturals and of floating-point values: decimal digits, a point, an exponent,
and the words for infinity and for no number.
-/

namespace CodeCorpus.Numeral

def digit? (c : Char) : Option Nat := if c.isDigit then some (c.toNat - '0'.toNat) else none

/-- The value of decimal digits, with `n` for the digits before them; anything else has none. -/
def digitsFrom? (n : Nat) : List Char → Option Nat
  | [] => some n
  | c :: cs =>
    match digit? c with
    | some d => digitsFrom? (n * 10 + d) cs
    | none => none

def digits? (cs : List Char) : Option Nat := if cs.isEmpty then none else digitsFrom? 0 cs

def fits64 (i : Int) : Bool := Int64.minValue.toInt ≤ i && i ≤ Int64.maxValue.toInt

/-- The 64-bit natural that a text writes: decimal digits, after a `+` or nothing. -/
def readNatural? (s : String) : Option Nat :=
  let ds :=
    match s.toList with
    | '+' :: cs => cs
    | cs => cs
  match digits? ds with
  | some n => if n < UInt64.size then some n else none
  | none => none

/-- A sign and what follows it; no sign is a `+`. -/
def takeSign : List Char → Bool × List Char
  | '-' :: cs => (true, cs)
  | '+' :: cs => (false, cs)
  | cs => (false, cs)

/-- An exponent: nothing, or `e` and a signed run of digits. -/
def readExponent? : List Char → Option Int
  | [] => some 0
  | c :: cs =>
    if c = 'e' ∨ c = 'E' then
      let (negative, ds) := takeSign cs
      (digits? ds).map fun n => if negative then -(n : Int) else n
    else none

/-- The decimal digits that characters start with, and the rest. -/
def spanDigits (cs : List Char) : List Char × List Char :=
  (cs.takeWhile Char.isDigit, cs.dropWhile Char.isDigit)

/-- The decimal `m * 10 ^ e` that unsigned characters write: digits with at most one point among
them and at least one digit, then an exponent. -/
def readDecimal? (cs : List Char) : Option (Nat × Int) :=
  let (whole, rest) := spanDigits cs
  let (fraction, rest) :=
    match rest with
    | '.' :: rest => spanDigits rest
    | rest => ([], rest)
  match digits? (whole ++ fraction), readExponent? rest with
  | some m, some e => some (m, e - fraction.length)
  | _, _ => none

/-- The 32-bit value that a text writes, nearest to the decimal it writes. -/
def readSingle? (s : String) : Option Float32 :=
  let (negative, cs) := takeSign s.toList
  let word := String.ofList (cs.map Char.toLower)
  if word = "inf" ∨ word = "infinity" then some (toFloat32 negative .infinite)
  else if word = "nan" then some (toFloat32 negative .notANumber)
  else (readDecimal? cs).map fun (m, e) => toFloat32 negative (single.ofDecimal m e)

/-- The 32-bit value of a decimal that is read as a 64-bit value first. -/
def singleViaDouble (negative : Bool) (m : Nat) (e : Int) : Float32 :=
  toFloat32 negative ((double.ofDecimal m e).narrow single)

end CodeCorpus.Numeral
