/-!
# Blank characters

The blank characters are those with the `White_Space` property. Trimming removes them from the
ends of a text, and the words of a text are its longest runs without them.
-/

namespace CodeCorpus.Text

/-- The characters with the `White_Space` property. -/
def isBlank (c : Char) : Bool :=
  let n := c.toNat
  (0x9 ≤ n && n ≤ 0xD) || n == 0x20 || n == 0x85 || n == 0xA0 || n == 0x1680 ||
    (0x2000 ≤ n && n ≤ 0x200A) || n == 0x2028 || n == 0x2029 || n == 0x202F || n == 0x205F ||
    n == 0x3000

/-- The characters without the blanks they start with. -/
def trimStartChars (cs : List Char) : List Char := cs.dropWhile isBlank

/-- The characters without the blanks they end with. -/
def trimEndChars (cs : List Char) : List Char := (cs.reverse.dropWhile isBlank).reverse

/-- A text without the blanks it ends with. -/
def trimEnd (s : String) : String := String.ofList (trimEndChars s.toList)

/-- A text without the blanks it starts and ends with. -/
def trim (s : String) : String := String.ofList (trimEndChars (trimStartChars s.toList))

/-- A text of blanks only. -/
def isBlankText (s : String) : Bool := s.toList.all isBlank

/-- The pieces between the characters that satisfy `p`, empty ones dropped; `word` holds the
characters of the current piece, last one first. -/
def piecesFrom (p : Char → Bool) (word : List Char) : List Char → List String
  | [] => if word.isEmpty then [] else [String.ofList word.reverse]
  | c :: cs =>
    if p c then
      if word.isEmpty then piecesFrom p [] cs
      else String.ofList word.reverse :: piecesFrom p [] cs
    else piecesFrom p (c :: word) cs

/-- The non-empty pieces of a text between the characters that satisfy `p`. -/
def pieces (p : Char → Bool) (s : String) : List String := piecesFrom p [] s.toList

/-- The words of a text: its pieces between blanks. -/
def words (s : String) : List String := pieces isBlank s

end CodeCorpus.Text
