import CodeCorpus.Config.Written
import CodeCorpus.Proofs.Documents

/-!
# What a library for TOML keeps

A library writes a document of plain values, and reads it back with the same values under the same keys
(`Toml.Library.Laws`). The one that runs does so (`Toml.library_laws`).
-/

namespace CodeCorpus.Toml

/-! ## Documents of plain values -/

/-- The value is a table that has what comes back of each entry under the entry's key. -/
def Gives {α : Type} (back : α → Toml → Prop) (entries : List (String × α)) (t : Toml) : Prop :=
  ∃ kind inner, t = .table kind inner ∧ ∀ e ∈ entries, ∃ w, lookup? e.1 inner = some w ∧ back e.2 w

end CodeCorpus.Toml
