import CodeCorpus.CommandLine.Verb
import CodeCorpus.Directories

/-!
# Requests

The arguments of the command line are read one by one. A request is to run a command with a configuration,
to show help, or to tell the version; arguments that make none are refused.
-/

namespace CodeCorpus.CommandLine

inductive Command where
  | ingest (root : String) (asJson : Bool)
  | delete (root path : String)
  | search (query : String) (part : Option String) (limit : Option Nat) (asJson : Bool)
  | stats
  | config
  deriving DecidableEq, Repr

inductive Request where
  /-- A command with the configuration in a named file, or the usual one. -/
  | run (config : Option String) (command : Command)
  | help (verb : Option Verb)
  | version
  | refused
  deriving DecidableEq, Repr

/-- What has been read so far. -/
structure Reading where
  verb : Option Verb := none
  /-- Whether help is asked for by the verb `help`. -/
  helping : Bool := false
  parameters : List String := []
  flags : List (String × String) := []
  /-- The `config` flag before the verb. -/
  outerConfig : Option String := none
  /-- The flag whose value comes next. -/
  pending : Option Flag := none
  /-- Whether all further arguments are parameters. -/
  verbatim : Bool := false

namespace Reading

def flag? (r : Reading) (name : String) : Option String :=
  (r.flags.find? fun f => f.1 == name).map Prod.snd

def allowed (r : Reading) : List Flag :=
  if r.helping then [] else configFlag :: ((r.verb.map Verb.flags).getD [])

/-- A flag with its value, which may come once. -/
def addFlag (r : Reading) (flag : Flag) (value : String) : Except Request Reading :=
  if (r.flag? flag.name).isSome || !flag.accepts value then .error .refused
  else .ok { r with flags := r.flags ++ [(flag.name, value)], pending := none }

/-- A flag by its name, with a value if one is attached. -/
def takeFlag (r : Reading) (name : String) (attached : Option String) : Except Request Reading :=
  match r.allowed.find? (fun f => f.name == name), attached with
  | some flag, some value => if flag.value.isSome then r.addFlag flag value else .error .refused
  | some flag, none => if flag.value.isSome then .ok { r with pending := some flag } else r.addFlag flag ""
  | none, none =>
    if name = "help" then .error (.help r.verb)
    else if name = "version" && r.verb.isNone then .error .version
    else .error .refused
  | none, some _ => .error .refused

def takeLetter (r : Reading) (letter : Char) : Except Request Reading :=
  if letter = 'h' then .error (.help r.verb)
  else if letter = 'V' && r.verb.isNone then .error .version
  else .error .refused

/-- An argument that is no flag. -/
def takeParameter (r : Reading) (s : String) : Except Request Reading :=
  match r.verb with
  | none =>
    if r.verbatim then .error .refused
    else if s = "help" && !r.helping then .ok { r with helping := true }
    else
      match Verb.named? s with
      | some v => .ok { r with verb := some v, flags := [], outerConfig := r.flag? configFlag.name }
      | none => .error .refused
  | some v =>
    match v.parameters[r.parameters.length]? with
    | some p =>
      if r.helping || !p.accepts s then .error .refused
      else .ok { r with parameters := r.parameters ++ [s] }
    | none => .error .refused

/-- Whether an argument looks like a flag. -/
def isFlag : List Char → Bool
  | '-' :: _ :: _ => true
  | _ => false

/-- One more argument. -/
def take (r : Reading) (s : String) : Except Request Reading :=
  match r.pending, s.toList with
  | some flag, cs => if isFlag cs then .error .refused else r.addFlag flag s
  | none, '-' :: '-' :: cs =>
    if r.verbatim then r.takeParameter s
    else if cs.isEmpty then .ok { r with verbatim := true }
    else
      let name := String.ofList (cs.takeWhile (· != '='))
      match cs.dropWhile (· != '=') with
      | [] => r.takeFlag name none
      | _ :: value => r.takeFlag name (some (String.ofList value))
  | none, '-' :: c :: _ => if r.verbatim then r.takeParameter s else r.takeLetter c
  | none, _ => r.takeParameter s

def command? (r : Reading) (v : Verb) : Option Command :=
  let asJson := (r.flag? "json").isSome
  match v, r.parameters with
  | .ingest, [root] => some (.ingest root asJson)
  | .delete, [root, path] => some (.delete root path)
  | .search, [query] =>
    some (.search query (r.flag? "document") ((r.flag? "limit").bind Numeral.readNatural?) asJson)
  | .stats, [] => some .stats
  | .config, [] => some .config
  | _, _ => none

/-- The request of all arguments. A `config` flag after the verb counts before one in front of it, and
either before the variable. -/
def finish (env : Environment) (r : Reading) : Request :=
  if r.helping then .help r.verb
  else
    match r.pending, r.verb.bind r.command? with
    | none, some command =>
      let variable_ := env.get? configVariable
      if (variable_.map isPath).getD true then
        .run (((r.flag? configFlag.name).or r.outerConfig).or variable_) command
      else .refused
    | _, _ => .refused

end Reading

def Request.read (env : Environment) (args : List String) : Request :=
  match args.foldlM Reading.take {} with
  | .ok r => r.finish env
  | .error request => request

end CodeCorpus.CommandLine
