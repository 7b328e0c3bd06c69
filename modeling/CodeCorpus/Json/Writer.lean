import CodeCorpus.Json

/-!
# Writing JSON

Values are written on one line without blanks; `pretty` puts every item on a line of its own.
-/

namespace CodeCorpus.Json

def hexDigit (n : Nat) : Char := Nat.digitChar (n % 16)

def writeChar (c : Char) : List Char :=
  match c with
  | '\x22' => ['\\', '\x22']
  | '\\' => ['\\', '\\']
  | '\n' => ['\\', 'n']
  | '\r' => ['\\', 'r']
  | '\t' => ['\\', 't']
  | '\x08' => ['\\', 'b']
  | '\x0c' => ['\\', 'f']
  | c =>
    if c.toNat < 0x20 then ['\\', 'u', '0', '0', hexDigit (c.toNat / 16), hexDigit c.toNat] else [c]

def quote (s : String) : String := String.ofList ('\x22' :: s.toList.flatMap writeChar ++ ['\x22'])

/-- Where the point stands among the digits of a number that is not whole: positionally as long as it
falls at most 13 digits after the first, or at most 5 zeros are in front; else the exponent is written. -/
def writeFraction (ds : List Char) (exponent : Int) : List Char :=
  let point : Int := ds.length + exponent
  if 0 ≤ exponent ∧ point ≤ 13 then ds ++ List.replicate exponent.toNat '0' ++ ['.', '0']
  else if 0 < point ∧ point ≤ 13 then ds.take point.toNat ++ '.' :: ds.drop point.toNat
  else if -6 < point ∧ point ≤ 0 then ['0', '.'] ++ List.replicate (-point).toNat '0' ++ ds
  else
    let tail := if ds.length ≤ 1 then ds else ds.take 1 ++ '.' :: ds.drop 1
    tail ++ 'e' :: (toString (point - 1)).toList

def Number.write (n : Number) : String :=
  let ds := Nat.toDigits 10 n.digits
  let sign := if n.negative then ['-'] else []
  String.ofList (sign ++ if n.whole then ds else writeFraction ds n.exponent)

mutual

def write : Json → String
  | .null => "null"
  | .bool b => if b then "true" else "false"
  | .number n => n.write
  | .text s => quote s
  | .array items => "[" ++ ",".intercalate (writeItems items) ++ "]"
  | .object fields => "\x7b" ++ ",".intercalate (writeFields fields) ++ "\x7d"

def writeItems : List Json → List String
  | [] => []
  | item :: items => item.write :: writeItems items

def writeFields : List (String × Json) → List String
  | [] => []
  | (key, value) :: fields => (quote key ++ ":" ++ value.write) :: writeFields fields

end

/-- A line break and the indentation of a level, two blanks each. -/
def breakAt (level : Nat) : String := String.ofList ('\n' :: List.replicate (2 * level) ' ')

mutual

/-- A value with one item or field a line, at a level of indentation. -/
def prettyAt (level : Nat) : Json → String
  | .array [] => "[]"
  | .object [] => "\x7b\x7d"
  | .array items =>
    "[" ++ ",".intercalate (prettyItems (level + 1) items) ++ breakAt level ++ "]"
  | .object fields =>
    "\x7b" ++ ",".intercalate (prettyFields (level + 1) fields) ++ breakAt level ++ "\x7d"
  | other => other.write

def prettyItems (level : Nat) : List Json → List String
  | [] => []
  | item :: items => (breakAt level ++ item.prettyAt level) :: prettyItems level items

def prettyFields (level : Nat) : List (String × Json) → List String
  | [] => []
  | (key, value) :: fields =>
    (breakAt level ++ quote key ++ ": " ++ value.prettyAt level) :: prettyFields level fields

end

def pretty (j : Json) : String := j.prettyAt 0

end CodeCorpus.Json
