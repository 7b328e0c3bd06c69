import CodeCorpus.Numeral.Reading
import CodeCorpus.Numeral.Shortest
import CodeCorpus.Record

/-!
# Records as JSON

Each record is an object of its fields, or an array of them in order. Fields that are not known are
passed over, and the fields with a default may be missing.
-/

namespace CodeCorpus

namespace Json

/-- The value of the field at a position: by name in an object, by position in an array. -/
def slot? (j : Json) (index : Nat) (key : String) : Option Json :=
  match j with
  | .array items => items[index]?
  | j => j.field? key

def asWord? (j : Json) : Option Nat := j.asNat?.filter (· < UInt64.size)

def asInt64? (j : Json) : Option Int := j.asInt?.filter Numeral.fits64

/-- Whether a number is held as a whole number of 64 bits; `-0` is not. -/
def Number.isWord (n : Number) : Bool :=
  n.whole && if n.negative then n.digits ≠ 0 && Numeral.fits64 (-n.digits) else n.digits < UInt64.size

/-- The 32-bit value nearest to a number; all but whole numbers of 64 bits are read as 64-bit values
first. -/
def asSingle? : Json → Option Float32
  | .number n =>
    if n.isWord then
      some (Numeral.toFloat32 n.negative (Numeral.single.round n.digits 1))
    else some (Numeral.singleViaDouble n.negative n.digits n.exponent)
  | _ => none

/-- Every item read, or none if one cannot be. -/
def readAll (read : Json → Option α) : List Json → Option (List α)
  | [] => some []
  | item :: items =>
    match read item, readAll read items with
    | some a, some as => some (a :: as)
    | _, _ => none

def asListOf? (read : Json → Option α) (j : Json) : Option (List α) := j.asArray? >>= readAll read

/-- Whether a value may stand for a record of `n` fields: an object, or an array that is no longer. -/
def isRecord (n : Nat) : Json → Bool
  | .object _ => true
  | .array items => items.length ≤ n
  | _ => false

end Json

def Uuid.ofJson? (j : Json) : Option Uuid := j.asText? >>= Uuid.read?

def Document.ofJson? (j : Json) : Option Document := do
  guard (j.isRecord 4)
  let id ← (← j.slot? 0 "id") |> Uuid.ofJson?
  let path ← (← j.slot? 1 "relative_path").asText?
  let digest ← (← j.slot? 2 "content_hash").asText?
  let indexedAt ← (← j.slot? 3 "indexed_at").asInt64?
  return ⟨id, path, digest, indexedAt⟩

def Document.toJson (d : Document) : Json := .object [
  ("id", .text d.id.toText), ("relative_path", .text d.path), ("content_hash", .text d.digest),
  ("indexed_at", .int d.indexedAt)]

/-- An optional text: a text, `null`, or nothing. -/
def Json.asOptionalText? : Option Json → Option (Option String)
  | none | some .null => some none
  | some (.text s) => some (some s)
  | some _ => none

def Chunk.ofJson? (j : Json) : Option Chunk := do
  guard (j.isRecord 9)
  let id ← (← j.slot? 0 "id") |> Uuid.ofJson?
  let owner ← (← j.slot? 1 "document_id") |> Uuid.ofJson?
  let namespaceName ← (← j.slot? 2 "namespace").asText?
  let typeName ← (← j.slot? 3 "type_name").asText?
  let memberName ←
    match j, j.slot? 4 "method_name" with
    | .array _, none => none
    | _, v => Json.asOptionalText? v
  let snippet ← (← j.slot? 5 "snippet").asText?
  let tokens ← (← j.slot? 6 "token_count").asWord?
  let vector ← (← j.slot? 7 "embedding").asListOf? Json.asSingle?
  let oversized ←
    match j.slot? 8 "oversized" with
    | none => some false
    | some v => v.asBool?
  return ⟨id, owner, namespaceName, typeName, memberName, snippet, tokens, vector, oversized⟩

/-- A 32-bit value in its shortest decimal form; one that is not finite is `null`. -/
def Json.single (x : Float32) : Json :=
  match Numeral.magnitude32 x with
  | .finite m q =>
    let d := Numeral.single.shortest m q
    .number ⟨Numeral.isNegative32 x, d.digits, d.exponent, false⟩
  | _ => .null

def Chunk.toJson (c : Chunk) : Json := .object [
  ("id", .text c.id.toText), ("document_id", .text c.owner.toText),
  ("namespace", .text c.namespaceName), ("type_name", .text c.typeName),
  ("method_name", (c.memberName.map Json.text).getD .null), ("snippet", .text c.snippet),
  ("token_count", .nat c.tokens), ("embedding", .array (c.vector.map Json.single)),
  ("oversized", .bool c.oversized)]

def Progress.ofJson? (j : Json) : Option Progress := do
  guard (j.isRecord 4)
  let processed ← (← j.slot? 0 "processed").asWord?
  let total ← (← j.slot? 1 "total").asWord?
  let errors ← (← j.slot? 2 "errors").asWord?
  let path ← (← j.slot? 3 "relative_path").asText?
  return ⟨processed, total, errors, path⟩

def Progress.toJson (p : Progress) : Json := .object [
  ("processed", .nat p.processed), ("total", .nat p.total), ("errors", .nat p.errors),
  ("relative_path", .text p.path)]

def Report.ofJson? (j : Json) : Option Report := do
  guard (j.isRecord 9)
  let documentsTotal ← (← j.slot? 0 "documents_total").asWord?
  let succeeded ← (← j.slot? 1 "succeeded").asWord?
  let failed ← (← j.slot? 2 "failed").asWord?
  let deleted ← (← j.slot? 3 "deleted").asWord?
  let unchanged ← (← j.slot? 4 "unchanged").asWord?
  let chunksCreated ← (← j.slot? 5 "chunks_created").asWord?
  let duration ← (← j.slot? 6 "duration_ms").asWord?
  let errors ←
    match j.slot? 7 "errors" with
    | none => some []
    | some v => v.asListOf? Json.asText?
  let cancelled ←
    match j.slot? 8 "cancelled" with
    | none => some false
    | some v => v.asBool?
  return ⟨documentsTotal, succeeded, failed, deleted, unchanged, chunksCreated, duration, errors,
    cancelled⟩

def Report.toJson (r : Report) : Json := .object [
  ("documents_total", .nat r.documentsTotal), ("succeeded", .nat r.succeeded),
  ("failed", .nat r.failed), ("deleted", .nat r.deleted), ("unchanged", .nat r.unchanged),
  ("chunks_created", .nat r.chunksCreated), ("duration_ms", .nat r.duration),
  ("errors", .array (r.errors.map .text)), ("cancelled", .bool r.cancelled)]

end CodeCorpus
