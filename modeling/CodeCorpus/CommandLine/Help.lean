import CodeCorpus.CommandLine.Verb
import CodeCorpus.Directories

/-!
# Help

The help of the program lists its verbs and flags, that of a verb its parameters and flags. Explanations
stand in a column behind the longest name.
-/

namespace CodeCorpus.CommandLine

/-- Lines of two columns, indented by two blanks. -/
def columns (rows : List (String × String)) : String :=
  let width := rows.foldl (fun n row => max n row.1.length) 0
  String.join (rows.map fun row =>
    "  " ++ row.1 ++ String.ofList (List.replicate (width - row.1.length + 2) ' ') ++ row.2 ++ "\n")

/-- The name of a flag with that of its value, behind the place of a letter. -/
def Flag.usage (f : Flag) : String :=
  "    --" ++ f.name ++ (f.value.map fun v => s!" <{v}>").getD ""

/-- The `config` flag and what its variable says. -/
def configRow (env : Environment) : String × String :=
  (configFlag.usage,
    s!"{configFlag.about} [env: {configVariable}=" ++ (env.get? configVariable).getD "" ++ "]")

def helpRow : String × String := ("-h, --help", "Print help")

def versionRow : String × String := ("-V, --version", "Print version")

/-- The rows of a verb's flags, with the flag of every verb in front. -/
def flagRows (env : Environment) (flags : List Flag) : List (String × String) :=
  configRow env :: flags.map (fun f => (f.usage, f.about)) ++ [helpRow]

def programHelp (env : Environment) : String :=
  s!"{programAbout}\n\nUsage: {programName} [OPTIONS] <COMMAND>\n\nCommands:\n" ++
    columns (Verb.all.map (fun v => (v.name, v.about)) ++
      [("help", "Print this message or the help of the given subcommand(s)")]) ++
    "\nOptions:\n" ++ columns [configRow env, helpRow, versionRow]

def Verb.help (env : Environment) (v : Verb) : String :=
  let names := String.join (v.parameters.map fun p => s!" <{p.name}>")
  let parameters := if v.parameters.isEmpty then ""
    else "Arguments:\n" ++ columns (v.parameters.map fun p => (s!"<{p.name}>", p.about)) ++ "\n"
  s!"{v.about}\n\nUsage: {programName} {v.name} [OPTIONS]{names}\n\n" ++ parameters ++
    "Options:\n" ++ columns (flagRows env v.flags)

/-- The help of a verb, or of the program. -/
def help (env : Environment) : Option Verb → String
  | some v => v.help env
  | none => programHelp env

end CodeCorpus.CommandLine
