import VariantGraph.CommandLine.Help
import VariantGraph.Project.Publishing
import VariantGraph.Resolution.Display

/-!
# The commands

The command line resolves a project and shows the result, or publishes a project. The manifest is
the one that the line or the environment names, or else the nearest one from the current directory
upwards.

Main statement: `CommandLine.execute_resolve` says that resolving leaves all files alone.
-/

namespace VariantGraph.CommandLine

/-! ## Grammar -/

/-- The parameter that names the manifest. -/
def manifestParameter : Parameter where
  long := "manifest-path"
  role := .value .path
  about := "Path to Modgraph.toml (defaults to the nearest one above the current directory)"

/-- The parameter that asks for more messages. -/
def verboseParameter : Parameter where
  long := "verbose"
  short := some 'v'
  role := .switch
  about := "Enable verbose output"

/-- The parameter that asks for help. -/
def helpParameter : Parameter where
  long := "help"
  short := some 'h'
  role := .help
  about := "Print help"

/-- The program. -/
def program : Level where
  name := "modgraph"
  about := "Variant-aware dependency resolution and module metadata"
  parameters :=
    [manifestParameter, verboseParameter, helpParameter,
      { long := "version", short := some 'V', role := .version, about := "Print version" }]
  subcommands :=
    [⟨"resolve", "Resolve the dependency graph and print it as a tree"⟩,
      ⟨"publish", "Write the project's module metadata document into a repository"⟩,
      ⟨"help", "Print this message or the help of the given subcommand(s)"⟩]

/-- The command that resolves a project. -/
def resolveLevel : Level where
  name := "modgraph resolve"
  about := "Resolve the dependency graph and print it as a tree"
  parameters :=
    [{ long := "depth", role := .value .count, about := "Maximum depth to display" },
      { long := "why", role := .value .text,
        about := "Show why a module is in the graph and why its version was selected" },
      { long := "conflicts", role := .switch,
        about := "Show requests that did not get the version they asked for" },
      manifestParameter,
      verboseParameter,
      helpParameter]

/-- The command that publishes a project. -/
def publishLevel : Level where
  name := "modgraph publish"
  about := "Write the project's module metadata document into a repository"
  parameters :=
    [{ long := "output", short := some 'o', role := .value .path,
        about := "Repository directory to publish into (defaults to the manifest's)" },
      { long := "resolved-versions", role := .switch,
        about := "Publish the versions the resolved graph selected" },
      manifestParameter,
      verboseParameter,
      helpParameter]

/-! ## Reading -/

/-- What a command does. -/
inductive Command where
  | resolve (view : Resolution.View)
  | publish (options : PublishOptions)
deriving DecidableEq, Repr

/-- A command with the manifest that it is for, if that is named. -/
structure Invocation where
  manifest : Option Path
  command : Command
deriving DecidableEq, Repr

/-- What a command line comes to. -/
inductive Request where
  | run (invocation : Invocation)
  /-- Some text is all that is asked for. -/
  | print (text : String)
  | misuse
deriving DecidableEq, Repr

/-- What the surroundings of the program say. -/
structure Environment where
  /-- The directory of the user. -/
  home : Path
  /-- The manifest that the variable `MODGRAPH_MANIFEST` names. -/
  manifest : Option String := none
  /-- The name of the build at hand. -/
  build : String

/-- The purpose of the program at length. -/
def programAbout : String :=
  "Modgraph resolves dependency graphs by matching consumer attributes against published " ++
    "variants, and writes the module metadata documents other builds resolve against."

/-- The explanation of a parameter. Of the program there is help at length and in short, and the
variable that names the manifest is shown with its value. -/
def explanation (env : Environment) (l : Level) (atLength : Bool) (p : Parameter) : String :=
  match p.role with
  | .value .path =>
    if p = manifestParameter then
      p.about ++ (if atLength then "\n\n" else " ") ++
        "[env: MODGRAPH_MANIFEST=" ++ env.manifest.getD "" ++ "]"
    else p.about
  | .help =>
    if l = program then
      p.about ++ if atLength then " (see a summary with '-h')" else " (see more with '--help')"
    else p.about
  | _ => p.about

/-- The help on a command, as it is seen away from a terminal. Only on the program there is help at
length. -/
def helpText (env : Environment) (l : Level) (atLength : Bool) : String :=
  let atLength := atLength && l = program
  Text.visible <|
    l.help (if atLength then programAbout else l.about) (explanation env l atLength) atLength

/-- The help on the subcommand that gives help. -/
def helpOnHelp : String :=
  "Print this message or the help of the given subcommand(s)\n\n" ++
    "Usage: modgraph help [COMMAND]...\n\n" ++
    "Arguments:\n  [COMMAND]...  Print help for the subcommand(s)\n"

/-- What is printed for the name and the version of the program. -/
def versionText : String := "modgraph " ++ Config.version ++ "\n"

/-- The end of reading a level. -/
def Stop.request (env : Environment) (l : Level) : Stop → Request
  | .help atLength => .print (helpText env l atLength)
  | .version => .print versionText
  | .misuse => .misuse

/-- Takes over the last parameter of a level. The variable that names the manifest must not be empty
where the level does not name it. -/
def finish (env : Environment) (r : Reading) : Option Reading :=
  match r.settle with
  | .ok r =>
    if env.manifest = some "" ∧ r.isGiven manifestParameter.long = false then none else some r
  | .error _ => none

/-- The manifest that is named: by the subcommand, by the program or by the variable. -/
def namedManifest (env : Environment) (outer inner : Reading) : Option Path :=
  (inner.get? manifestParameter.long <|> outer.get? manifestParameter.long <|> env.manifest).map
    Path.mk

/-- Reads the words behind the name of a subcommand. -/
def readCommand (env : Environment) (outer : Reading) (l : Level) (command : Reading → Command)
    (words : List String) : Request :=
  match l.read {} words with
  | .error stop => stop.request env l
  | .ok (inner, _) =>
    match finish env inner, finish env outer with
    | some inner, some outer => .run ⟨namedManifest env outer inner, command inner⟩
    | _, _ => .misuse

/-- The command that resolves, from its parameters. -/
def resolveCommand (r : Reading) : Command :=
  .resolve {
    depth := (r.get? "depth").bind count?
    why := r.get? "why"
    conflicts := r.isGiven "conflicts" }

/-- The command that publishes, from its parameters. -/
def publishCommand (r : Reading) : Command :=
  .publish {
    output := (r.get? "output").map Path.mk
    resolvedVersions := r.isGiven "resolved-versions" }

/-- The help on the subcommand that some words name. -/
def helpOn (env : Environment) : List String → Request
  | [] => .print (helpText env program true)
  | ["resolve"] => .print (helpText env resolveLevel true)
  | ["publish"] => .print (helpText env publishLevel true)
  | ["help"] => .print helpOnHelp
  | _ => .misuse

/-- Reads a command line. -/
def read (env : Environment) (words : List String) : Request :=
  match program.read {} words with
  | .error stop => stop.request env program
  | .ok (_, none) => .misuse
  | .ok (outer, some (name, rest)) =>
    if name = "resolve" then readCommand env outer resolveLevel resolveCommand rest
    else if name = "publish" then readCommand env outer publishLevel publishCommand rest
    else helpOn env rest

/-! ## Running -/

/-- What a program leaves behind besides files. -/
structure Outcome where
  status : Nat := 0
  output : String := ""
  /-- What a reader is told beside the output. -/
  message : String := ""
deriving DecidableEq, Repr

/-- The manifest that a command is for. -/
def findManifest (t : FileTree) (named : Option Path) : Except ManifestError Path :=
  match named with
  | some file => if t.isFile file then .ok file else .error (.absent file)
  | none =>
    match t.findAncestorWith t.currentPath Project.manifestName with
    | some d => .ok (d.join Project.manifestName)
    | none => .error .notFound

/-- Loads the manifest's path and the configuration. -/
def prepare (t : FileTree) (env : Environment) (named : Option Path) :
    Except ProjectError (Path × Config) := do
  let file ← (findManifest t named).mapError .manifest
  let config ← (Config.load t (Config.pathIn env.home)).mapError .config
  return (file, config)

/-- What is left of a failure. -/
def failure (e : ProjectError) : Outcome := { status := 1, message := e.message ++ "\n" }

/-- Carries out a command. -/
def execute (t : FileTree) (env : Environment) (file : Path) (config : Config) :
    Command → FileTree × Outcome
  | .resolve view =>
    match Project.resolveAt t config file with
    | .ok r => (t, { output := r.text view })
    | .error e => (t, failure e)
  | .publish options =>
    match Project.publish t config env.build options file with
    | (t, .ok path) => (t, { output := path.text ++ "\n" })
    | (t, .error e) => (t, failure e)

/-- Carries out a command for its manifest. -/
def invoke (t : FileTree) (env : Environment) (i : Invocation) : FileTree × Outcome :=
  match prepare t env i.manifest with
  | .ok (file, config) => execute t env file config i.command
  | .error e => (t, failure e)

/-- Runs the program on the words of a command line. -/
def run (t : FileTree) (env : Environment) (words : List String) : FileTree × Outcome :=
  match read env words with
  | .run i => invoke t env i
  | .print text => (t, { output := text })
  | .misuse => (t, { status := 2, message := program.usage ++ "\n" })

theorem execute_resolve (t : FileTree) (env : Environment) (file : Path) (config : Config)
    (v : Resolution.View) : (execute t env file config (.resolve v)).1 = t := by
  unfold execute
  simp only
  split <;> rfl

end VariantGraph.CommandLine
