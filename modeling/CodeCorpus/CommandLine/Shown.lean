import CodeCorpus.Json.Writer
import CodeCorpus.Numeral.Fixed
import CodeCorpus.Record.Written
import CodeCorpus.Search
import CodeCorpus.Text.Lines

/-!
# How results are shown

Reports, search results and counts as lines of text.
-/

namespace CodeCorpus

def asLine (s : String) : String := s ++ "\n"

/-- A report in a line, and a line for each error. -/
def Report.text (r : Report) : String :=
  let cancelled := if r.cancelled then " (cancelled)" else ""
  asLine (s!"{r.succeeded} succeeded, {r.failed} failed, {r.deleted} deleted, " ++
    s!"{r.unchanged} unchanged, {r.chunksCreated} chunks in {r.duration} ms{cancelled}") ++
    String.join (r.errors.map fun e => asLine ("  error: " ++ e))

/-- The type that a chunk comes from, after its namespace if it has one. -/
def Chunk.qualifiedType (c : Chunk) : String :=
  if c.namespaceName.isEmpty then c.typeName else s!"{c.namespaceName}.{c.typeName}"

/-- A result in a line, the lines of its snippet, and an empty line. -/
def SearchResult.text (r : SearchResult) : String :=
  let oversized := if r.chunk.oversized then " [oversized]" else ""
  let member := r.chunk.memberName.getD "<type>"
  asLine (Numeral.fixed32 3 r.score ++ s!"  {r.path}  {r.chunk.qualifiedType}.{member}{oversized}") ++
    String.join ((Text.lines r.chunk.snippet).map fun line => asLine ("    " ++ line)) ++ asLine ""

/-- Results one after the other, or that there are none. -/
def SearchResult.textOfAll (rs : List SearchResult) : String :=
  if rs.isEmpty then asLine "No results" else String.join (rs.map SearchResult.text)

def SearchResult.toJson (r : SearchResult) : Json := .object [
  ("chunk", r.chunk.toJson), ("relative_path", .text r.path), ("score", .single r.score)]

def Counts.text (c : Counts) : String :=
  asLine s!"documents: {c.documents}" ++ asLine s!"chunks:    {c.chunks}"

end CodeCorpus
