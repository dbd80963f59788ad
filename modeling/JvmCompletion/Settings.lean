import JvmCompletion.Document
import JvmCompletion.LoadError
import JvmCompletion.Toml.Parse

/-!
# Settings

The settings of a user are read from the file `bytecode-complete/config.toml` in the directory for
configuration files. It need not be there, and every key in it can be left out:

    log_filter = "debug"
    snapshot = "/home/me/symbols.toml"

The directory is the one that the environment names, if it names one by an absolute path, and
`.config` in the home directory otherwise.

Reading a file is an effect, so the functions that read one are given the means to do it and work
in whatever monad that does.
-/

namespace JvmCompletion

open Document

/-- What the environment says that settings depend on. -/
structure Environment where
  /-- The home directory that the environment names. -/
  home : Option String := none
  /-- The home directory on record for the account, for when the environment names none. -/
  accountHome : Option String := none
  /-- The directory for configuration files that the environment names. -/
  configHome : Option String := none
  /-- What the environment says about logging. -/
  logFilter : Option String := none

/-- The settings of a user. -/
structure Settings where
  /-- What to log, where neither the command line nor the environment says so. -/
  logFilter : Option String := none
  /-- The snapshot to complete against, where the command line names none. -/
  snapshot : Option String := none
  deriving DecidableEq, Repr

/-- Whether a path starts at the root. -/
def isAbsolute (path : String) : Bool := path.toList.head? = some '/'

/-- A path followed by a further part. -/
def joinPath (path part : String) : String :=
  if path = "" ∨ path.toList.getLast? = some '/' then path ++ part else path ++ "/" ++ part

/-- The home directory: an empty one in the environment does not count. -/
def Environment.homeDirectory? (env : Environment) : Option String :=
  match env.home with
  | some home => if home = "" then env.accountHome else some home
  | none => env.accountHome

/-- The directory for configuration files. Without a home directory there is none. -/
def Environment.configDirectory? (env : Environment) : Option String :=
  env.homeDirectory?.map fun home =>
    match env.configHome with
    | some dir => if isAbsolute dir then dir else joinPath home ".config"
    | none => joinPath home ".config"

namespace Settings

/-- The path of the settings file. -/
def path? (env : Environment) : Option String :=
  env.configDirectory?.map fun dir => joinPath (joinPath dir "bytecode-complete") "config.toml"

/-- Reads settings from a value of a document. -/
def ofDocument? {δ : Type} [Document δ] (value : δ) : Option Settings := do
  let record ← fields? ["log_filter", "snapshot"] true value
  let logFilter ← optional? record "log_filter" none fun v => (text? v).map some
  let snapshot ← optional? record "snapshot" none fun v => (text? v).map some
  return { logFilter, snapshot }

/-- Reads settings from the text of a document; `origin` is the path that errors name. -/
def parse (text origin : String) : Except LoadError Settings :=
  match Toml.parse? text with
  | none => .error (.malformed origin .notToml)
  | some value =>
    match ofDocument? value with
    | none => .error (.malformed origin .wrongShape)
    | some s => .ok s

/-- The settings that come of reading the file at a path. A file that is not there counts as one
without keys. -/
def ofRead (path : String) : Except ReadFault String → Except LoadError Settings
  | .ok text => parse text path
  | .error .notFound => .ok {}
  | .error fault => .error (.unreadable path fault)

variable {m : Type → Type} [Monad m]

/-- Loads the settings from a file. -/
def load (read : String → m (Except ReadFault String)) (path : String) :
    m (Except LoadError Settings) := do
  return ofRead path (← read path)

/-- Loads the settings from the place where they belong. -/
def loadDefault (read : String → m (Except ReadFault String)) (env : Environment) :
    m (Except LoadError Settings) :=
  match path? env with
  | some path => load read path
  | none => return .ok {}

end Settings

end JvmCompletion
