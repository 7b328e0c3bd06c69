import CodeCorpus.Proofs.Files
import CodeCorpus.Proofs.Layers
import CodeCorpus.Proofs.Library
import CodeCorpus.Proofs.Spellings
import Mathlib.Tactic.Tauto

/-!
# Saved configurations

A configuration that is allowed is saved as a document that reads back as it, whatever the defaults are, but for the
least score, which may come back rounded. What is asked of the library is that it keeps what it writes.
-/

namespace CodeCorpus.Config

open Toml

/-! ## The document -/

end CodeCorpus.Config
