import CodeCorpus.Config.Loading

/-!
# Layers of configurations

Each field of a configuration comes from its variable, or else from the file, or else from the defaults (`layered`).
Loading gives what the layers make together, but the file must be allowed by itself before the variables count. That
comes to the same as checking the layers together unless the file is refused for what the variables would mend
(`load_layered`).
-/

namespace CodeCorpus

/-! ## What a document gives -/

namespace Toml

variable {α : Type}

/-- What a section gives for a key, if it is there and gives something that can be read. -/
def given? (part : Option Toml) (key : String) (place : Nat) (read? : Toml → Option α) : Option α :=
  part.bind fun t => (Record.of? t).bind fun r => (r key place).bind read?

end Toml

namespace Config

open Toml

/-! ## Layers -/

section
variable {t : Toml}

end

section
variable {env : Environment} {named : Option String} {read : String → Except FileFault ByteArray} {bytes : ByteArray}
  {s : String} {document : Toml}

end

instance : DecidableEq (Except ConfigFault Unit)
  | .ok _, .ok _ => isTrue rfl
  | .ok _, .error _ => isFalse nofun
  | .error _, .ok _ => isFalse nofun
  | .error f, .error g => decidable_of_iff (f = g) ⟨congrArg _, Except.error.inj⟩

end Config

end CodeCorpus
