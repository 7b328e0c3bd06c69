import CodeCorpus.Json.Reader

/-!
# Record identifiers

Records are identified by 128-bit numbers. Fresh ones carry the time of their making in their highest
bits, so that they ascend; they are written in lowercase hexadecimal groups of 8, 4, 4, 4 and 12
digits.
-/

namespace CodeCorpus

structure Uuid where
  bits : BitVec 128
  deriving DecidableEq, Repr, Inhabited

namespace Uuid

/-- The identifier with this value, modulo `2 ^ 128`. -/
def ofNat (n : Nat) : Uuid := ⟨BitVec.ofNat 128 n⟩

def toNat (u : Uuid) : Nat := u.bits.toNat

def version (u : Uuid) : Nat := (u.toNat >>> 76) % 16

/-- The `count`-th identifier made at a time in milliseconds, in the layout of version 7. -/
def atTime (milliseconds count : Nat) : Uuid :=
  ofNat ((milliseconds % 1 <<< 48) <<< 80 + 7 <<< 76 + (count >>> 62 % 1 <<< 12) <<< 64 + 1 <<< 63 +
    count % 1 <<< 62)

/-- The lowest `n` hexadecimal digits of a number, the highest first. -/
def hexDigits (value : Nat) : Nat → List Char
  | 0 => []
  | n + 1 => Nat.digitChar (value >>> (4 * n) % 16) :: hexDigits value n

def toText (u : Uuid) : String :=
  let n := u.toNat
  String.ofList (hexDigits (n >>> 96) 8 ++ '-' :: hexDigits (n >>> 80) 4 ++
    '-' :: hexDigits (n >>> 64) 4 ++ '-' :: hexDigits (n >>> 48) 4 ++ '-' :: hexDigits n 12)

/-- The value of hexadecimal digits of either case, with `n` for those before them. -/
def hexFrom? (n : Nat) : List Char → Option Nat
  | [] => some n
  | c :: cs =>
    match Json.hexDigit? c with
    | some d => hexFrom? (n * 16 + d) cs
    | none => none

def readGroups? (cs : List Char) : Option Uuid :=
  let isDash (i : Nat) : Bool := cs[i]? == some '-'
  if cs.length = 36 ∧ isDash 8 ∧ isDash 13 ∧ isDash 18 ∧ isDash 23 then
    (hexFrom? 0 (cs.take 8 ++ (cs.drop 9).take 4 ++ (cs.drop 14).take 4 ++ (cs.drop 19).take 4 ++
      cs.drop 24)).map ofNat
  else none

/-- The identifier that a text writes: 32 digits, or five groups that may stand in braces or after
`urn:uuid:`. -/
def read? (s : String) : Option Uuid :=
  let cs := s.toList
  if cs.length = 32 then (hexFrom? 0 cs).map ofNat
  else if cs.length = 38 ∧ cs.head? = some '\x7b' ∧ cs.getLast? = some '\x7d' then
    readGroups? ((cs.drop 1).take 36)
  else if "urn:uuid:".toList.isPrefixOf cs then readGroups? (cs.drop 9)
  else readGroups? cs

end Uuid

end CodeCorpus
