import CodeCorpus.Json
import CodeCorpus.Numeral.Reading

/-!
# Reading JSON

A text is read as one value between blanks. Values nest at most 128 levels deep.
-/

namespace CodeCorpus.Json

def isSpace (c : Char) : Bool := c == ' ' || c == '\n' || c == '\t' || c == '\r'

def skipSpace (cs : List Char) : List Char := cs.dropWhile isSpace

def hexDigit? (c : Char) : Option Nat :=
  if c.isDigit then some (c.toNat - '0'.toNat)
  else if 'a' ≤ c ∧ c ≤ 'f' then some (c.toNat - 'a'.toNat + 10)
  else if 'A' ≤ c ∧ c ≤ 'F' then some (c.toNat - 'A'.toNat + 10)
  else none

def hexQuad? (a b c d : Char) : Option Nat :=
  match hexDigit? a, hexDigit? b, hexDigit? c, hexDigit? d with
  | some a, some b, some c, some d => some (((a * 16 + b) * 16 + c) * 16 + d)
  | _, _, _, _ => none

def escape? : Char → Option Char
  | '\x22' => some '\x22'
  | '\\' => some '\\'
  | '/' => some '/'
  | 'b' => some '\x08'
  | 'f' => some '\x0c'
  | 'n' => some '\n'
  | 'r' => some '\r'
  | 't' => some '\t'
  | _ => none

/-- The rest of a string after its opening quote, and what follows its closing one; `done` holds the
characters read so far, last one first. A character outside the first plane is written as two
escapes, and neither half stands alone. -/
def readString (done : List Char) : List Char → Option (String × List Char)
  | [] => none
  | '\x22' :: cs => some (String.ofList done.reverse, cs)
  | '\\' :: 'u' :: a :: b :: c :: d :: cs =>
    match hexQuad? a b c d with
    | none => none
    | some n =>
      if 0xD800 ≤ n ∧ n < 0xDC00 then
        match cs with
        | '\\' :: 'u' :: a :: b :: c :: d :: cs =>
          match hexQuad? a b c d with
          | some m =>
            if 0xDC00 ≤ m ∧ m < 0xE000 then
              readString (Char.ofNat (0x10000 + (n - 0xD800) * 0x400 + (m - 0xDC00)) :: done) cs
            else none
          | none => none
        | _ => none
      else if 0xDC00 ≤ n ∧ n < 0xE000 then none
      else readString (Char.ofNat n :: done) cs
  | '\\' :: e :: cs =>
    match escape? e with
    | some c => readString (c :: done) cs
    | none => none
  | c :: cs => if c.toNat < 0x20 then none else readString (c :: done) cs

/-- A number: an optional `-`, digits without a leading zero, then a fraction and an exponent, each
with at least one digit. -/
def readNumber (cs : List Char) : Option (Number × List Char) :=
  let (negative, cs) :=
    match cs with
    | '-' :: cs => (true, cs)
    | cs => (false, cs)
  let (whole, cs) := Numeral.spanDigits cs
  let leading : Bool :=
    match whole with
    | '0' :: _ :: _ => true
    | _ => false
  let (fraction, badFraction, cs) : List Char × Bool × List Char :=
    match cs with
    | '.' :: rest =>
      let (f, rest) := Numeral.spanDigits rest
      (f, f.isEmpty, rest)
    | cs => ([], false, cs)
  let power : Option (Option Int × List Char) :=
    match cs with
    | c :: rest =>
      if c = 'e' ∨ c = 'E' then
        let (minus, rest) := Numeral.takeSign rest
        let (ds, rest) := Numeral.spanDigits rest
        (Numeral.digits? ds).map fun n => (some (if minus then -(n : Int) else n), rest)
      else some (none, c :: rest)
    | [] => some (none, [])
  match Numeral.digits? whole, Numeral.digitsFrom? 0 (whole ++ fraction), power with
  | some _, some digits, some (e, rest) =>
    if leading || badFraction then none
    else
      some (⟨negative, digits, e.getD 0 - fraction.length, fraction.isEmpty && e.isNone⟩, rest)
  | _, _, _ => none

/-- The rest of a word, and what follows it. -/
def readWord (word : List Char) (value : Json) (cs : List Char) : Option (Json × List Char) :=
  if word.isPrefixOf cs then some (value, cs.drop word.length) else none

mutual

/-- A value and what follows it. Each call spends one unit of fuel; `depth` counts the levels that
may still be opened. -/
def readValue (depth : Nat) (cs : List Char) : Nat → Option (Json × List Char)
  | 0 => none
  | fuel + 1 =>
    match skipSpace cs with
    | '\x22' :: cs => (readString [] cs).map fun (s, rest) => (.text s, rest)
    | '[' :: cs =>
      match depth with
      | 0 => none
      | depth + 1 =>
        match skipSpace cs with
        | ']' :: rest => some (.array [], rest)
        | cs => (readItems depth cs fuel).map fun (items, rest) => (.array items, rest)
    | '{' :: cs =>
      match depth with
      | 0 => none
      | depth + 1 =>
        match skipSpace cs with
        | '}' :: rest => some (.object [], rest)
        | cs => (readFields depth cs fuel).map fun (fields, rest) => (.object fields, rest)
    | 't' :: cs => readWord ['r', 'u', 'e'] (.bool true) cs
    | 'f' :: cs => readWord ['a', 'l', 's', 'e'] (.bool false) cs
    | 'n' :: cs => readWord ['u', 'l', 'l'] .null cs
    | cs => (readNumber cs).map fun (n, rest) => (.number n, rest)

def readItems (depth : Nat) (cs : List Char) : Nat → Option (List Json × List Char)
  | 0 => none
  | fuel + 1 =>
    match readValue depth cs fuel with
    | none => none
    | some (item, rest) =>
      match skipSpace rest with
      | ',' :: rest => (readItems depth rest fuel).map fun (items, rest) => (item :: items, rest)
      | ']' :: rest => some ([item], rest)
      | _ => none

def readFields (depth : Nat) (cs : List Char) : Nat → Option (List (String × Json) × List Char)
  | 0 => none
  | fuel + 1 =>
    match skipSpace cs with
    | '\x22' :: cs =>
      match readString [] cs with
      | none => none
      | some (key, rest) =>
        match skipSpace rest with
        | ':' :: rest =>
          match readValue depth rest fuel with
          | none => none
          | some (value, rest) =>
            match skipSpace rest with
            | ',' :: rest =>
              (readFields depth rest fuel).map fun (fields, rest) => ((key, value) :: fields, rest)
            | '}' :: rest => some ([(key, value)], rest)
            | _ => none
        | _ => none
    | _ => none

end

def read? (s : String) : Option Json :=
  let cs := s.toList
  match readValue 128 cs (2 * cs.length + 2) with
  | some (value, rest) => if (skipSpace rest).isEmpty then some value else none
  | none => none

end CodeCorpus.Json
