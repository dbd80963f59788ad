import JvmCompletion.Completer

/-!
# Command-line arguments

The command line takes two words, the kind of symbol and what has been typed of it, and options
that can stand before, between and after them:

    bytecode-complete [OPTIONS] KIND PARTIAL

An option has a name with two hyphens and may have a letter with one. Its value is the next
argument, or is attached: to the name after `=`, to the letter with or without `=`. An argument
that starts with a hyphen and is more than that is an option, never a value; after `--` every
argument is one of the two words. An option is given at most once, its name is not abbreviated, and
a path is not empty. Arguments are taken in order, and the first fault or request for the version
or for help settles the matter.
-/

namespace JvmCompletion.CommandLine

/-- What the arguments ask to complete, and how. -/
structure Invocation where
  /-- The request. -/
  request : Request
  /-- The path of the snapshot. -/
  snapshot : Option String := none
  /-- What to log. -/
  logLevel : Option String := none
  /-- Whether the suggestions are wanted as one JSON array. -/
  json : Bool := false
  deriving DecidableEq, Repr

/-- What is wrong with the arguments. -/
inductive UsageFault where
  /-- There is no such option. -/
  | unknownOption (argument : String)
  /-- An option is given more than once. -/
  | repeated (option : String)
  /-- An option that needs a value has none. -/
  | missingValue (option : String)
  /-- An option that takes no value has one. -/
  | unexpectedValue (option : String)
  /-- There is no such kind of symbol. -/
  | unknownKind (word : String)
  /-- There are more words than two. -/
  | unexpectedWord (word : String)
  /-- One of the two words is missing. -/
  | missingWord
  deriving DecidableEq, Repr

/-- The words for a fault. -/
def UsageFault.message : UsageFault → String
  | .unknownOption argument => "unknown option " ++ argument
  | .repeated option => option ++ " is given more than once"
  | .missingValue option => option ++ " needs a value"
  | .unexpectedValue option => option ++ " takes no value"
  | .unknownKind word => "unknown kind " ++ word
  | .unexpectedWord word => "unexpected argument " ++ word
  | .missingWord => "KIND and PARTIAL are required"

/-- What the arguments come to. -/
inductive Reading where
  /-- Something is to be completed. -/
  | invocation (i : Invocation)
  /-- The version is to be shown. -/
  | version
  /-- The help text is to be shown. -/
  | help
  /-- The arguments are at fault. -/
  | fault (f : UsageFault)
  deriving DecidableEq, Repr

/-- The options that take a value. -/
inductive ValueOption where
  | snapshot | logLevel | owner
  deriving DecidableEq, Repr

/-- All options. -/
inductive Flag where
  /-- One that takes a value. -/
  | valued (o : ValueOption)
  /-- One that asks for JSON. -/
  | json
  /-- One that asks for the version. -/
  | version
  /-- One that asks for help. -/
  | help
  deriving DecidableEq, Repr

/-- The option with a name. -/
def Flag.ofName? : String → Option Flag
  | "snapshot" => some (.valued .snapshot)
  | "log-level" => some (.valued .logLevel)
  | "owner" => some (.valued .owner)
  | "json" => some .json
  | "version" => some .version
  | "help" => some .help
  | _ => none

/-- The option with a letter. -/
def Flag.ofLetter? : Char → Option Flag
  | 's' => some (.valued .snapshot)
  | 'o' => some (.valued .owner)
  | 'V' => some .version
  | 'h' => some .help
  | _ => none

/-- The name of an option, as it is given. -/
def ValueOption.name : ValueOption → String
  | .snapshot => "--snapshot"
  | .logLevel => "--log-level"
  | .owner => "--owner"

/-- The arguments taken so far. -/
structure State where
  /-- The values of options. -/
  values : List (ValueOption × String) := []
  /-- Whether JSON is wanted. -/
  json : Bool := false
  /-- The kind of symbol. -/
  kind : Option Kind := none
  /-- What has been typed. -/
  typed : Option String := none
  /-- The option whose value is due. -/
  due : Option ValueOption := none
  /-- Whether `--` has been given. -/
  wordsOnly : Bool := false

namespace State

/-- What comes of one argument: a further state, or the end of the matter. -/
abbrev Outcome := Except Reading State

/-- Gives an option a value. -/
def give (s : State) (o : ValueOption) (value : String) : Outcome :=
  if (s.values.lookup o).isSome then .error (.fault (.repeated o.name))
  else if o = .snapshot ∧ value = "" then .error (.fault (.missingValue o.name))
  else .ok { s with values := (o, value) :: s.values, due := none }

/-- Takes an option without its value. No value may be due. -/
def flag (s : State) (f : Flag) : Outcome :=
  match s.due, f with
  | some o, _ => .error (.fault (.missingValue o.name))
  | none, .valued o => .ok { s with due := some o }
  | none, .json =>
    if s.json then .error (.fault (.repeated "--json")) else .ok { s with json := true }
  | none, .version => .error .version
  | none, .help => .error .help

/-- Takes an option by its name, with the value that is attached to it. -/
def long (s : State) (name : String) (attached : Option String) : Outcome :=
  match s.due, Flag.ofName? name, attached with
  | some o, _, _ => .error (.fault (.missingValue o.name))
  | none, none, _ => .error (.fault (.unknownOption ("--" ++ name)))
  | none, some (.valued o), some value => s.give o value
  | none, some _, some _ => .error (.fault (.unexpectedValue ("--" ++ name)))
  | none, some f, none => s.flag f

/-- Takes a run of option letters. The first one that takes a value has the rest of the run for it,
or the next argument if nothing is left. -/
def short (s : State) : List Char → Outcome
  | [] => .ok s
  | c :: rest =>
    match s.due, Flag.ofLetter? c with
    | some o, _ => .error (.fault (.missingValue o.name))
    | none, none => .error (.fault (.unknownOption (String.ofList ['-', c])))
    | none, some (.valued o) =>
      match rest with
      | [] => s.flag (.valued o)
      | '=' :: value => s.give o (String.ofList value)
      | value => s.give o (String.ofList value)
    | none, some f =>
      match s.flag f with
      | .ok s' => s'.short rest
      | .error r => .error r

/-- Takes one of the two words. No value may be due. -/
def word (s : State) (w : String) : Outcome :=
  match s.due, s.kind, s.typed with
  | some o, _, _ => .error (.fault (.missingValue o.name))
  | none, none, _ =>
    match Kind.ofWord? w with
    | some k => .ok { s with kind := some k }
    | none => .error (.fault (.unknownKind w))
  | none, some _, none => .ok { s with typed := some w }
  | none, some _, some _ => .error (.fault (.unexpectedWord w))

/-- Takes one argument. -/
def take (s : State) (argument : String) : Outcome :=
  if s.wordsOnly then s.word argument
  else match argument.toList with
    | ['-', '-'] => .ok { s with wordsOnly := true }
    | '-' :: '-' :: rest =>
      let name := rest.takeWhile (· ≠ '=')
      let attached := match rest.dropWhile (· ≠ '=') with
        | _ :: value => some (String.ofList value)
        | [] => none
      s.long (String.ofList name) attached
    | '-' :: c :: rest => s.short (c :: rest)
    | _ =>
      match s.due with
      | some o => s.give o argument
      | none => s.word argument

/-- What the arguments come to after all of them have been taken. -/
def finish (s : State) : Reading :=
  match s.due, s.kind, s.typed with
  | some o, _, _ => .fault (.missingValue o.name)
  | none, some kind, some typed =>
    .invocation
      { request := { kind, owner := s.values.lookup .owner, typed }
        snapshot := s.values.lookup .snapshot
        logLevel := s.values.lookup .logLevel
        json := s.json }
  | none, _, _ => .fault .missingWord

end State

/-- Reads the arguments of the command line. -/
def read (arguments : List String) : Reading :=
  match arguments.foldlM State.take {} with
  | .ok s => s.finish
  | .error r => r

end JvmCompletion.CommandLine
