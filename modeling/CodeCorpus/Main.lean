import CodeCorpus.CommandLine
import CodeCorpus.Store.Table.Written

/-!
# The program

The program takes what a command needs from the system into a session, lets the command line answer in it,
and puts the tables of the database back. A table is a file in the directory of the database. There is no
runtime for models.
-/

namespace CodeCorpus.Program

open CommandLine

def environment : IO Environment := do
  let names := configVariable :: Directories.variableNames ++ Config.variableNames
  let values ← names.mapM fun name => do
    return (← IO.getEnv name).map fun value => (name, value)
  return ⟨values.filterMap id⟩

/-- The bytes of a file, if it can be read. -/
def contents? (path : String) : IO (Option ByteArray) := do
  try return some (← IO.FS.readBinFile path) catch _ => return none

/-- The absolute path without links of a path that exists. -/
def resolved? (path : String) : IO (Option String) := do
  try return some (← IO.FS.realPath path).toString catch _ => return none

def takePath (s : Session) (path : String) : IO Session := do
  match ← resolved? (s.absolute path), ← contents? (s.absolute path) with
  | none, _ => return s
  | some target, some bytes => return put s ((s.tree.write target bytes).bind (link s target))
  | some target, none =>
    return put s ((s.tree.makeDirectories [] (Path.parts target)).bind (link s target))
where
  put (s : Session) (r : Except FileFault FileTree) : Session :=
    { s with tree := (r.toOption).getD s.tree }
  link (s : Session) (target : String) (t : FileTree) : Except FileFault FileTree :=
    if s.absolute path == target then .ok t else t.place (s.absolute path) (.link target)

def tableFile (s : Session) (c : Config) (name : String) : String :=
  Path.join (s.absolute c.store.database) (name ++ ".json")

def takeTables (s : Session) (c : Config) : IO Session := do
  let names := [c.store.documentsTable, c.store.chunksTable]
  let tables ← names.mapM fun name => do
    return ((← contents? (tableFile s c name)).bind Table.ofBytes?).map fun table => (name, table)
  return s.setDatabase c.store.database (tables.filterMap id)

def putTables (s : Session) (c : Config) : IO Unit := do
  for (name, table) in s.databaseAt c.store.database do
    IO.FS.createDirAll (s.absolute c.store.database)
    IO.FS.writeFile (tableFile s c name) (table.toJson.write ++ "\n")

/-- There is no runtime for models. -/
def noModels : Models := fun m =>
  .error (.embedding (.initializationFailed s!"{m.title}: there is no runtime for models"))

def rootOf : Command → List String
  | .ingest root _ | .delete root _ => [root]
  | _ => []

/-- Takes what a request needs into a session, and the configuration if it can be loaded. -/
def prepare (env : Environment) (s : Session) : Request → IO (Session × Option Config)
  | .run config command => do
    let file := config.getD (Directories.ofEnvironment env).configFile
    let s ← (file :: rootOf command).foldlM takePath s
    match Config.load env config (s.tree.read s.directory) with
    | .error _ => return (s, none)
    | .ok c => return (← takeTables (← takePath s c.tokenizer.vocabulary) c, some c)
  | _ => return (s, none)

def run (args : List String) : IO UInt32 := do
  let env ← environment
  let start : Session := { directory := (← IO.currentDir).toString }
  let (s, config) ← prepare env start (Request.read env args)
  let (outcome, s) := CommandLine.run noModels env args s
  IO.print outcome.output
  IO.eprint outcome.errors
  if let some c := config then
    if outcome.status == 0 then putTables s c
  return outcome.status.toUInt32

end CodeCorpus.Program

def main (args : List String) : IO UInt32 := CodeCorpus.Program.run args
