import CodeCorpus.Toml.Reader
import CodeCorpus.Toml.Writer

/-!
# The library for TOML

Configurations are written and read by way of a library, of which they need two functions only. The one that runs
writes as `Toml.Writer` does and reads as `Toml.Reader` does.
-/

namespace CodeCorpus.Toml

/-- A name, and the values of the keys below it. -/
abbrev Section := String × List (String × Toml)

class Library where
  /-- The text of a document with these sections, if it has one. -/
  write? : List Section → Option String
  /-- The document that a text writes. -/
  read? : String → Option Toml

instance library : Library := ⟨writeSections?, read?⟩

end CodeCorpus.Toml
