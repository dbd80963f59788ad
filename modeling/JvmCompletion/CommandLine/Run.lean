import JvmCompletion.CommandLine.Arguments
import JvmCompletion.Settings
import JvmCompletion.Snapshot

/-!
# The command line

The command line answers one request and ends. First the settings are loaded, then the snapshot
that the arguments name, or else the settings, or else an empty one; then the suggestions are
written, one on each line or all of them in one JSON array. If anything cannot be loaded, nothing is
written but an error.

`run` is given the means to read a file and works in whatever monad that does; `runIn` reads from a
tree of files.
-/

namespace JvmCompletion.CommandLine

/-- The name of the program. -/
def programName : String := "bytecode-complete"

/-- The version of the program. -/
def programVersion : String := "0.1.0"

/-- The line that shows how the program is used. -/
def usageLine : String := "Usage: " ++ programName ++ " [OPTIONS] <KIND> <PARTIAL>"

/-- The help text. -/
def helpText : String :=
  "Complete class names, descriptors, and member signatures against a symbol snapshot.\n\n" ++
  usageLine ++ "\n\n" ++
  "KIND is one of internal-name, descriptor, method, field.\n\n" ++
  "Options:\n" ++
  "  -s, --snapshot <SNAPSHOT>    symbol snapshot (TOML)\n" ++
  "      --log-level <LOG_LEVEL>  log filter\n" ++
  "      --json                   print one JSON array\n" ++
  "  -o, --owner <OWNER>          owner class for method and field\n" ++
  "  -h, --help                   print help\n" ++
  "  -V, --version                print version\n"

/-- How a run of the program ends. -/
inductive Ending where
  /-- It has done what was asked. -/
  | success (output : String)
  /-- Something could not be loaded. -/
  | failure (error : LoadError)
  /-- The arguments are at fault. -/
  | misuse (fault : UsageFault)
  deriving DecidableEq, Repr

namespace Ending

/-- The exit code of the program. -/
def exitCode : Ending → Nat
  | .success _ => 0
  | .failure _ => 1
  | .misuse _ => 2

/-- What the program writes to standard output. -/
def output : Ending → String
  | .success output => output
  | _ => ""

/-- What comes before an error on standard error. -/
def errorHead : String := programName ++ ": "

/-- What the program writes to standard error. -/
def errorOutput : Ending → String
  | .success _ => ""
  | .failure error => errorHead ++ error.message ++ "\n"
  | .misuse fault => "error: " ++ fault.message ++ "\n\n" ++ usageLine ++ "\n"

end Ending

/-- Suggestions as they are written. -/
def render (json : Bool) (items : List String) : String :=
  if json then Json.quoteList items ++ "\n" else String.join (items.map (· ++ "\n"))

variable {m : Type → Type} [Monad m]

/-- Loads the snapshot from a file; without one it is empty. -/
def loadSnapshot (read : String → m (Except ReadFault String)) :
    Option String → m (Except LoadError Snapshot)
  | none => return .ok {}
  | some path => do
    match ← read path with
    | .ok text => return Snapshot.parse text path
    | .error fault => return .error (.unreadable path fault)

/-- Does what the arguments ask. What is to be logged makes no difference to the ending. -/
def invoke (read : String → m (Except ReadFault String)) (env : Environment) (i : Invocation) :
    m Ending := do
  match ← Settings.loadDefault read env with
  | .error e => return .failure e
  | .ok settings =>
    match ← loadSnapshot read (i.snapshot <|> settings.snapshot) with
    | .error e => return .failure e
    | .ok snapshot =>
      let items := (Completer.complete snapshot.sources {} i.request).items
      return .success (render i.json items)

/-- Runs the program. -/
def run (read : String → m (Except ReadFault String)) (env : Environment)
    (arguments : List String) : m Ending :=
  match CommandLine.read arguments with
  | .invocation i => invoke read env i
  | .version => return .success (programName ++ " " ++ programVersion ++ "\n")
  | .help => return .success helpText
  | .fault f => return .misuse f

/-- Runs the program on a tree of files. -/
def runIn (files : FileTree) (env : Environment) (arguments : List String) : Ending :=
  Id.run (run (fun path => pure (files.readText path)) env arguments)

end JvmCompletion.CommandLine
