import CodeCorpus.Json.Reader
import CodeCorpus.Numeral.Reading
import CodeCorpus.Toml

/-!
# TOML scalars

Truth values, numbers, dates and times are written as words. Digits may be grouped by single underscores.
A number of the 64-bit formats must not be too large for its format.
-/

namespace CodeCorpus.Toml

def isWordCharacter (c : Char) : Bool :=
  c.isAlphanum || c == '_' || c == '+' || c == '-' || c == '.' || c == ':'

/-- Digits without the underscores between them; an underscore must stand between two digits. -/
def ungroup? (isDigit : Char → Bool) : List Char → Option (List Char)
  | [] => none
  | [c] => if isDigit c then some [c] else none
  | c :: '_' :: cs => if isDigit c then (ungroup? isDigit cs).map (c :: ·) else none
  | c :: cs => if isDigit c then (ungroup? isDigit cs).map (c :: ·) else none

/-- Ungrouped decimal digits without a leading zero. -/
def plainDigits? (cs : List Char) : Option (List Char) :=
  match cs with
  | '0' :: _ :: _ => none
  | cs => ungroup? Char.isDigit cs

/-- The value of digits in a base. -/
def valueInBase (base : Nat) (cs : List Char) : Nat :=
  cs.foldl (fun n c => n * base + (Json.hexDigit? c).getD 0) 0

/-! ## Numbers -/

/-- A whole number of 64 bits. -/
def fitInteger? (i : Int) : Option Toml :=
  if Numeral.fits64 i then some (.integer i) else none

/-- A whole number in a base other than ten. -/
def readBased? (base : Nat) (isDigit : Char → Bool) (cs : List Char) : Option Toml :=
  (ungroup? isDigit cs).bind fun ds => fitInteger? (valueInBase base ds)

def isHexDigit (c : Char) : Bool := (Json.hexDigit? c).isSome

/-- A whole number. -/
def readInteger? : List Char → Option Toml
  | '0' :: 'x' :: cs => readBased? 16 isHexDigit cs
  | '0' :: 'o' :: cs => readBased? 8 (fun c => '0' ≤ c && c ≤ '7') cs
  | '0' :: 'b' :: cs => readBased? 2 (fun c => c == '0' || c == '1') cs
  | cs =>
    let (negative, cs) := Numeral.takeSign cs
    (plainDigits? cs).bind fun ds =>
      (Numeral.digits? ds).bind fun n => fitInteger? (if negative then -(n : Int) else n)

/-- An exponent: nothing, or `e` and a signed run of digits. -/
def readExponent? : List Char → Option (List Char)
  | [] => some []
  | e :: cs =>
    let sign := cs.take 1 |>.filter fun c => c == '+' || c == '-'
    (ungroup? Char.isDigit (cs.drop sign.length)).map fun ds => e :: sign ++ ds

/-- An unsigned number with a point or an exponent, without its underscores. -/
def ungroupDecimal? (cs : List Char) : Option (List Char) :=
  let mantissa := cs.takeWhile fun c => c != 'e' && c != 'E'
  let exponent := cs.dropWhile fun c => c != 'e' && c != 'E'
  match plainDigits? (mantissa.takeWhile (· != '.')), mantissa.dropWhile (· != '.') with
  | some whole, [] =>
    if exponent.isEmpty then none else (readExponent? exponent).map (whole ++ ·)
  | some whole, _ :: fraction =>
    match ungroup? Char.isDigit fraction, readExponent? exponent with
    | some fraction, some exponent => some (whole ++ '.' :: fraction ++ exponent)
    | _, _ => none
  | none, _ => none

/-- A number with a fraction, an exponent, or a word for one that is not finite. -/
def readFloat? (cs : List Char) : Option Toml :=
  let (negative, cs) := Numeral.takeSign cs
  match cs with
  | ['i', 'n', 'f'] => some (.float negative .infinite)
  | ['n', 'a', 'n'] => some (.float negative .notANumber)
  | cs =>
    ((ungroupDecimal? cs).bind Numeral.readDecimal?).bind fun (m, e) =>
      match Numeral.double.ofDecimal m e with
      | .infinite => if negative then some (.float true .infinite) else none
      | value => some (.float negative value)

/-! ## Dates and times -/

/-- The number that two digits write, if it is in a range. -/
def twoDigits? (least greatest : Nat) (a b : Char) : Option Nat :=
  (Numeral.digits? [a, b]).bind fun n => if least ≤ n ∧ n ≤ greatest then some n else none

def daysIn (year month : Nat) : Nat :=
  if month = 2 then
    if year % 4 = 0 ∧ (year % 100 ≠ 0 ∨ year % 400 = 0) then 29 else 28
  else if month = 4 ∨ month = 6 ∨ month = 9 ∨ month = 11 then 30
  else 31

def isDate : List Char → Bool
  | [a, b, c, d, '-', m, n, '-', e, f] =>
    match Numeral.digits? [a, b, c, d], twoDigits? 1 12 m n with
    | some year, some month => (twoDigits? 1 (daysIn year month) e f).isSome
    | _, _ => false
  | _ => false

def isOffset : List Char → Bool
  | ['Z'] => true
  | ['z'] => true
  | [sign, a, b, ':', c, d] =>
    (sign == '+' || sign == '-') && (twoDigits? 0 23 a b).isSome && (twoDigits? 0 59 c d).isSome
  | _ => false

/-- The characters after a fraction of a second, if there is one. -/
def dropFraction : List Char → Option (List Char)
  | '.' :: c :: cs => if c.isDigit then some (cs.dropWhile Char.isDigit) else none
  | '.' :: [] => none
  | cs => some cs

/-- Whether characters write a time of the day, and a distance from universal time where that is
allowed. -/
def isTime (offset : Bool) : List Char → Bool
  | a :: b :: ':' :: c :: d :: ':' :: e :: f :: cs =>
    (twoDigits? 0 23 a b).isSome && (twoDigits? 0 59 c d).isSome && (twoDigits? 0 60 e f).isSome &&
      match dropFraction cs with
      | some [] => true
      | some cs => offset && isOffset cs
      | none => false
  | _ => false

/-- Whether a word writes a date, a time, or a date and a time. -/
def isMoment (cs : List Char) : Bool :=
  isDate cs || isTime false cs ||
    (isDate (cs.take 10) &&
      match cs.drop 10 with
      | c :: time => (c == 'T' || c == 't') && isTime true time
      | [] => false)

/-! ## Words -/

def readWord? (cs : List Char) : Option Toml :=
  if cs = ['t', 'r', 'u', 'e'] then some (.boolean true)
  else if cs = ['f', 'a', 'l', 's', 'e'] then some (.boolean false)
  else if isMoment cs then some (.moment (String.ofList cs))
  else (readInteger? cs).or (readFloat? cs)

/-- A value that is a word, and what follows it. One blank may stand between a date and a time. -/
def readScalar (cs : List Char) : Option (Toml × List Char) :=
  let word := cs.takeWhile isWordCharacter
  let rest := cs.dropWhile isWordCharacter
  let next := (rest.drop 1).takeWhile isWordCharacter
  if isDate word && rest.head? == some ' ' && !next.isEmpty then
    if isTime true next then
      some (.moment (String.ofList (word ++ ' ' :: next)), (rest.drop 1).dropWhile isWordCharacter)
    else none
  else (readWord? word).map fun value => (value, rest)

end CodeCorpus.Toml
