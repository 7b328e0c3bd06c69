/-!
# Bytes as text

`decode?` accepts exactly the valid UTF-8 sequences. `decodeLossy` accepts every sequence: each
longest start of a character that breaks off, and each byte that can start none, becomes U+FFFD.
-/

namespace CodeCorpus.Text

/-- The text that the bytes encode in UTF-8, if they do. -/
def decode? (bytes : ByteArray) : Option String := String.fromUTF8? bytes

theorem decode?_toUTF8 (t : String) : decode? t.toUTF8 = some t := by
  unfold decode? String.fromUTF8?
  exact dif_pos t.isValidUTF8

/-- U+FFFD, which stands for bytes that encode no character. -/
def replacement : Char := '\uFFFD'

/-- What the bytes after a leading byte must be: the least and the greatest value of the first, and
how many more continuation bytes follow it. -/
def followers (lead : UInt8) : Option (UInt8 × UInt8 × Nat) :=
  if 0xC2 ≤ lead && lead ≤ 0xDF then some (0x80, 0xBF, 0)
  else if lead == 0xE0 then some (0xA0, 0xBF, 1)
  else if 0xE1 ≤ lead && lead ≤ 0xEC then some (0x80, 0xBF, 1)
  else if lead == 0xED then some (0x80, 0x9F, 1)
  else if lead == 0xEE || lead == 0xEF then some (0x80, 0xBF, 1)
  else if lead == 0xF0 then some (0x90, 0xBF, 2)
  else if 0xF1 ≤ lead && lead ≤ 0xF3 then some (0x80, 0xBF, 2)
  else if lead == 0xF4 then some (0x80, 0x8F, 2)
  else none

/-- The bits that a leading byte contributes to its character. -/
def leadBits (lead : UInt8) : Nat :=
  let n := lead.toNat
  if n < 0xE0 then n - 0xC0 else if n < 0xF0 then n - 0xE0 else n - 0xF0

/-- What has been read of a character: the bits so far, the bounds of the next byte, and how many
bytes follow that one. -/
structure Partial where
  bits : Nat
  low : UInt8
  high : UInt8
  more : Nat

/-- What a byte gives between characters: a character of its own, or the start of a longer one. -/
def startChar (b : UInt8) : List Char × Option Partial :=
  if b < 0x80 then ([Char.ofNat b.toNat], none)
  else
    match followers b with
    | some (low, high, more) => ([], some ⟨leadBits b, low, high, more⟩)
    | none => ([replacement], none)

/-- What a byte gives inside a character: its next bits, or U+FFFD and a start of its own. -/
def continueChar (p : Partial) (b : UInt8) : List Char × Option Partial :=
  if p.low ≤ b && b ≤ p.high then
    let bits := p.bits * 64 + (b.toNat - 0x80)
    match p.more with
    | 0 => ([Char.ofNat bits], none)
    | more + 1 => ([], some ⟨bits, 0x80, 0xBF, more⟩)
  else
    let (out, next) := startChar b
    (replacement :: out, next)

/-- The characters of a byte sequence; `begun` is the character that is being read. -/
def lossyFrom (begun : Option Partial) : List UInt8 → List Char
  | [] => if begun.isSome then [replacement] else []
  | b :: bs =>
    let (out, next) :=
      match begun with
      | none => startChar b
      | some p => continueChar p b
    out ++ lossyFrom next bs

/-- The text of a byte sequence, with U+FFFD where it encodes no character. -/
def decodeLossy (bytes : ByteArray) : String :=
  match decode? bytes with
  | some s => s
  | none => String.ofList (lossyFrom none bytes.toList)

theorem decodeLossy_of_decode? {bytes : ByteArray} {s : String} (h : decode? bytes = some s) :
    decodeLossy bytes = s := by
  simp [decodeLossy, h]

end CodeCorpus.Text
