import CodeCorpus.Path

/-!
# Directories of the user

Data, caches and configuration live in three directories of the user, named by variables of the
environment or else below the home directory. Without a home directory they are the working directory.
-/

namespace CodeCorpus

/-- The variables of the environment that are set, with their values. -/
structure Environment where
  entries : List (String × String)

def Environment.get? (env : Environment) (name : String) : Option String :=
  (env.entries.find? fun v => v.1 == name).map Prod.snd

structure Directories where
  data : String
  cache : String
  config : String
  deriving DecidableEq, Repr

namespace Directories

def variableNames : List String := ["XDG_DATA_HOME", "XDG_CACHE_HOME", "XDG_CONFIG_HOME", "HOME"]

/-- The directory that a variable names, or else one below the home directory. -/
def named (env : Environment) (name below : String) : String :=
  match env.get? name, env.get? "HOME" with
  | some directory, _ => directory
  | none, some home => Path.join home below
  | none, none => "."

def ofEnvironment (env : Environment) : Directories :=
  { data := named env "XDG_DATA_HOME" ".local/share"
    cache := named env "XDG_CACHE_HOME" ".cache"
    config := named env "XDG_CONFIG_HOME" ".config" }

/-- The name of the directory that each of them holds for this program. -/
def ownName : String := "csharp-rag"

def ownData (d : Directories) : String := Path.join d.data ownName

def ownCache (d : Directories) : String := Path.join d.cache ownName

def ownConfig (d : Directories) : String := Path.join d.config ownName

def database (d : Directories) : String := Path.join d.ownData "lancedb"

def models (d : Directories) : String := Path.join d.ownCache "models"

def vocabulary (d : Directories) : String := Path.join d.ownData "tokenizer.json"

def configFile (d : Directories) : String := Path.join d.ownConfig "config.toml"

end Directories

end CodeCorpus
