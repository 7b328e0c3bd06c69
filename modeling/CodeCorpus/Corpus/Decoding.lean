import CodeCorpus.Fault
import CodeCorpus.Text.Decoding

/-!
# Source files as text

A source file must be valid UTF-8; one byte order mark at its start is dropped.
-/

namespace CodeCorpus.Corpus

def mark : Char := '\uFEFF'

/-- A text without the byte order mark it starts with. -/
def dropMark (s : String) : String :=
  match s.toList with
  | c :: cs => if c = mark then String.ofList cs else s
  | [] => s

def decode (path : String) (bytes : ByteArray) : Except Fault String :=
  match Text.decode? bytes with
  | some s => .ok (dropMark s)
  | none => .error (.listing (.invalidEncoding path))

end CodeCorpus.Corpus
