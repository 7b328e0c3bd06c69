import CodeCorpus.Record.Written
import CodeCorpus.Store.Table

/-!
# Tables as JSON

A table of documents is an object with its rows, a table of chunks one with the width of its vectors and
its rows.
-/

namespace CodeCorpus.Table

def toJson : Table → Json
  | .documents rows => .object [("documents", .array (rows.map Document.toJson))]
  | .chunks width rows =>
    .object [("width", .nat width), ("chunks", .array (rows.map Chunk.toJson))]

def ofJson? (j : Json) : Option Table :=
  match j.field? "documents", j.field? "width", j.field? "chunks" with
  | some rows, _, _ => (rows.asListOf? Document.ofJson?).map .documents
  | none, some width, some rows => do
    return .chunks (← width.asNat?) (← rows.asListOf? Chunk.ofJson?)
  | none, _, _ => none

/-- The table that bytes write. -/
def ofBytes? (bytes : ByteArray) : Option Table := do
  ofJson? (← Json.read? (← String.fromUTF8? bytes))

end CodeCorpus.Table
