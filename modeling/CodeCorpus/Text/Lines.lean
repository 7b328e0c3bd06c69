/-!
# Lines

A line ends with `\n` or `\r\n`; a lone `\r` belongs to its line, and a terminator at the end of the
text adds no empty line after it.
-/

namespace CodeCorpus.Text

/-- The characters of a line that ended with `\n`, given last one first: a final `\r` belongs to the
terminator. -/
def closeLine : List Char → List Char
  | '\r' :: line => line.reverse
  | line => line.reverse

/-- The lines of the characters that follow `line`, the current line given last one first. -/
def linesFrom (line : List Char) : List Char → List (List Char)
  | [] => if line.isEmpty then [] else [line.reverse]
  | '\n' :: cs => closeLine line :: linesFrom [] cs
  | c :: cs => linesFrom (c :: line) cs

def lines (s : String) : List String := (linesFrom [] s.toList).map String.ofList

/-- The lines of a byte sequence; `line` is the current one, last byte first. Only `\n` counts here. -/
def byteLines (line : List UInt8) : List UInt8 → List (List UInt8)
  | [] => if line.isEmpty then [] else [line.reverse]
  | b :: bs => if b == 0x0A then line.reverse :: byteLines [] bs else byteLines (b :: line) bs

/-- Lines joined into one text, with no terminator after the last. -/
def unlines (ls : List String) : String := "\n".intercalate ls

end CodeCorpus.Text
