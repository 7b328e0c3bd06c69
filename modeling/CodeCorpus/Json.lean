/-!
# JSON values

The values of the JSON format. An object keeps its fields in the order they are written, and a
number keeps its decimal digits, so that whole numbers of any size and fractions stay apart.
-/

namespace CodeCorpus

/-- A number as written: `digits * 10 ^ exponent`, and whether it was written without point and
exponent. -/
structure Json.Number where
  negative : Bool
  digits : Nat
  exponent : Int
  whole : Bool
  deriving DecidableEq, Repr

inductive Json where
  | null
  | bool (b : Bool)
  | number (n : Json.Number)
  | text (s : String)
  | array (items : List Json)
  | object (fields : List (String × Json))
  deriving Repr, Inhabited

namespace Json

/-- A whole number. -/
def int (i : Int) : Json := .number ⟨decide (i < 0), i.natAbs, 0, true⟩

/-- A whole number that is not negative. -/
def nat (n : Nat) : Json := .number ⟨false, n, 0, true⟩

/-- The value of a field of an object, the last one if it is written more than once. -/
def field? (key : String) : Json → Option Json
  | .object fields => (fields.reverse.find? fun f => f.1 == key).map Prod.snd
  | _ => none

/-- The value of a field that is present and not `null`. -/
def given? (key : String) (j : Json) : Option Json :=
  match j.field? key with
  | some .null => none
  | v => v

def asText? : Json → Option String
  | .text s => some s
  | _ => none

def asBool? : Json → Option Bool
  | .bool b => some b
  | _ => none

def asArray? : Json → Option (List Json)
  | .array items => some items
  | _ => none

/-- A whole number; `-0` is none. -/
def asInt? : Json → Option Int
  | .number n =>
    if n.whole then if n.negative then if n.digits = 0 then none else some (-(n.digits : Int))
      else some n.digits
    else none
  | _ => none

/-- A whole number that is not negative. -/
def asNat? : Json → Option Nat
  | .number n => if n.whole && !n.negative then some n.digits else none
  | _ => none

end Json

end CodeCorpus
