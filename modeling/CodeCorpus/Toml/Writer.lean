import CodeCorpus.Numeral.Reading
import CodeCorpus.Numeral.Shortest
import CodeCorpus.Toml
import CodeCorpus.Toml.Text

/-!
# Writing TOML

A document is written as sections: a header, and a line for each key. An array of more than one item has a
line for each. Whole numbers beyond 64 bits have no written form.
-/

namespace CodeCorpus.Toml

/-- A number that is not whole; one whose fraction is zero shows it. -/
def writeFloat (negative : Bool) (value : Numeral.Magnitude) : String :=
  let sign := if negative then "-" else ""
  match value with
  | .notANumber => sign ++ "nan"
  | .infinite => sign ++ "inf"
  | .finite m q =>
    let digits := (Numeral.double.shortest m q).toText
    sign ++ if digits.toList.contains '.' then digits else digits ++ ".0"

/-- The written form of an array, given those of its items. -/
def writeItems : List String → String
  | [] => "[]"
  | [item] => "[" ++ item ++ "]"
  | items => "[\n" ++ String.join (items.map fun item => "    " ++ item ++ ",\n") ++ "]"

/-- A value as it stands after a key; tables have no such form here. -/
def writeValue? : Toml → Option String
  | .text s => some (writeText s)
  | .integer i => if Numeral.fits64 i then some (toString i) else none
  | .float negative value => some (writeFloat negative value)
  | .boolean b => some (if b then "true" else "false")
  | .moment written => some written
  | .array items => (writeValues? items).map writeItems
  | .table _ _ => none
  | .tables _ => none
where
  /-- The written forms of values. -/
  writeValues? : List Toml → Option (List String)
    | [] => some []
    | value :: values => do
      let first ← writeValue? value
      let others ← writeValues? values
      return first :: others

def writeEntries? : List (String × Toml) → Option String
  | [] => some ""
  | (key, value) :: entries => do
    let written ← writeValue? value
    let others ← writeEntries? entries
    return key ++ " = " ++ written ++ "\n" ++ others

def writeSection? (name : String) (entries : List (String × Toml)) : Option String :=
  (writeEntries? entries).map fun lines => "[" ++ name ++ "]\n" ++ lines

def writeSections? : List (String × List (String × Toml)) → Option String
  | [] => some ""
  | [(name, entries)] => writeSection? name entries
  | (name, entries) :: sections => do
    let first ← writeSection? name entries
    let others ← writeSections? sections
    return first ++ "\n" ++ others

end CodeCorpus.Toml
