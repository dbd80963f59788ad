import JvmCompletion.Completer

/-!
# Sessions

A session holds a class path, a number of workspaces of which one may be active, and a number of
completers that share them, each with an index of names of its own. It goes forward by steps: a
completer is asked for something, a workspace is made active, classes are put into workspaces or
added to the class path, and so on.

`Session.step` gives the report of a step and the session after it. A report says, beside the
result, how many lists of names all completers have built up to then and which classes the runtime
was asked for in the step. A step that names a completer or workspace that does not exist changes
nothing.
-/

namespace JvmCompletion

/-- A number of completers over the same sources. -/
structure Session where
  /-- The class path of the runtime. -/
  classPath : ClassPath
  /-- The workspaces there are, active or not. -/
  workspaces : List Workspace
  /-- The identity of the active workspace. -/
  active : Option WorkspaceId
  /-- The index of names of each completer. -/
  completers : List NameIndex := [{}]
  /-- How many lists of names have been built so far. -/
  builds : Nat := 0

/-- What can be done in a session. -/
inductive Step where
  /-- A completer is asked to complete. -/
  | complete (completer : Nat) (request : Request)
  /-- A completer is asked for its list of class names. -/
  | names (completer : Nat)
  /-- A completer is asked whether it keeps a list that serves for an identity. -/
  | servesFor (completer : Nat) (identity : Option WorkspaceId)
  /-- A completer drops its list of class names. -/
  | invalidate (completer : Nat)
  /-- A completer is asked for the signatures of the members of a class. -/
  | resolve (completer : Nat) (owner : String) (kind : MemberKind)
  /-- A workspace is made the active one. -/
  | activate (workspace : WorkspaceId)
  /-- The active workspace is closed. -/
  | close
  /-- The active workspace is asked for. -/
  | current
  /-- A class is put into a workspace. -/
  | putClass (workspace : WorkspaceId) (c : ClassFile)
  /-- The names of the classes in a workspace are asked for. -/
  | resident (workspace : WorkspaceId)
  /-- A class in a workspace is asked for. -/
  | classOf (workspace : WorkspaceId) (name : String)
  /-- A name is added to the class path. -/
  | addName (name : String)
  /-- A class is added to the class path. -/
  | addClass (c : ReflectedClass)
  /-- The names on the class path are asked for. -/
  | loadable
  /-- The runtime is asked for a class. -/
  | load (binaryName : String)
  /-- A completer is added, with its list of class names built at once if it is to be warm. -/
  | addCompleter (warm : Bool)

/-- What a step results in. -/
inductive Result where
  /-- A list of suggestions or names. -/
  | items (list : List String)
  /-- The signatures of the members of a class, if it is known. -/
  | signatures (list : Option (List String))
  /-- Yes or no. -/
  | flag (answer : Bool)
  /-- A number of things. -/
  | count (n : Nat)
  /-- The workspace that is or was active, if any. -/
  | workspace (identity : Option WorkspaceId)
  /-- The names of the classes in a workspace, sorted. -/
  | resident (names : List String)
  /-- A class file, if it is there. -/
  | classFile (c : Option ClassFile)
  /-- A class of the runtime, if it is there. -/
  | reflectedClass (c : Option ReflectedClass)
  /-- Nothing to tell. -/
  | done
  /-- There is no such completer. -/
  | unknownCompleter
  /-- There is no such workspace. -/
  | unknownWorkspace
  deriving DecidableEq, Repr

/-- What is told about a step. -/
structure Report where
  /-- The result of the step. -/
  result : Result
  /-- How many lists of names have been built so far. -/
  builds : Nat
  /-- The binary names that the runtime was asked for in the step. -/
  lookups : List String := []
  deriving DecidableEq, Repr

namespace Session

/-- The workspace with an identity. -/
def workspace? (s : Session) (id : WorkspaceId) : Option Workspace :=
  s.workspaces.find? fun w => w.id == id

/-- The sources as the completers see them now. -/
def sources (s : Session) : Sources := ⟨s.classPath, s.active.bind s.workspace?⟩

/-- The report of a step that builds nothing and asks the runtime for nothing. -/
def tell (s : Session) (result : Result) : Report := ⟨result, s.builds, []⟩

/-- Lets a completer answer: its index afterwards and the lists it built are taken over. -/
def ask (s : Session) (completer : Nat) (answer : NameIndex → Answer) : Report × Session :=
  match s.completers[completer]? with
  | none => (s.tell .unknownCompleter, s)
  | some index =>
    let a := answer index
    let s' := { s with completers := s.completers.set completer a.index,
                       builds := s.builds + a.builds }
    (⟨.items a.items, s'.builds, a.lookups⟩, s')

/-- Puts a class into the workspace with an identity. -/
def putClass (s : Session) (id : WorkspaceId) (c : ClassFile) : Session :=
  { s with workspaces := s.workspaces.map fun w => if w.id = id then w.putClass c else w }

/-- Does one step. -/
def step (s : Session) : Step → Report × Session
  | .complete completer request =>
    s.ask completer fun index => Completer.complete s.sources index request
  | .names completer =>
    s.ask completer fun index =>
      { items := index.names s.sources, index := index.refresh s.sources,
        builds := index.builds s.sources }
  | .servesFor completer identity =>
    match s.completers[completer]?, identity.all fun id => (s.workspace? id).isSome with
    | none, _ => (s.tell .unknownCompleter, s)
    | some _, false => (s.tell .unknownWorkspace, s)
    | some index, true => (s.tell (.flag (index.servesFor identity)), s)
  | .invalidate completer =>
    match s.completers[completer]? with
    | none => (s.tell .unknownCompleter, s)
    | some index =>
      (s.tell .done, { s with completers := s.completers.set completer index.invalidate })
  | .resolve completer owner kind =>
    match s.completers[completer]? with
    | none => (s.tell .unknownCompleter, s)
    | some _ =>
      (⟨.signatures (s.sources.signatures? owner kind), s.builds, s.sources.lookups owner⟩, s)
  | .activate id =>
    match s.workspace? id with
    | none => (s.tell .unknownWorkspace, s)
    | some _ => (s.tell (.workspace s.active), { s with active := some id })
  | .close => (s.tell (.workspace s.active), { s with active := none })
  | .current => (s.tell (.workspace s.active), s)
  | .putClass id c =>
    let s' := s.putClass id c
    match s'.workspace? id with
    | none => (s.tell .unknownWorkspace, s)
    | some w => (s.tell (.count w.size), s')
  | .resident id =>
    match s.workspace? id with
    | none => (s.tell .unknownWorkspace, s)
    | some w => (s.tell (.resident (Names.sorted w.residentNames)), s)
  | .classOf id name =>
    match s.workspace? id with
    | none => (s.tell .unknownWorkspace, s)
    | some w => (s.tell (.classFile (w.class? name)), s)
  | .addName name =>
    let path := s.classPath.addName name
    (s.tell (.count path.names.length), { s with classPath := path })
  | .addClass c =>
    let path := s.classPath.addClass c
    (s.tell (.count path.names.length), { s with classPath := path })
  | .loadable => (s.tell (.items s.classPath.names), s)
  | .load name =>
    (⟨.reflectedClass (s.classPath.load? name), s.builds, [name]⟩, s)
  | .addCompleter warm =>
    let fresh : NameIndex := {}
    let index := if warm then fresh.refresh s.sources else fresh
    let built := if warm then fresh.builds s.sources else 0
    let s' := { s with completers := s.completers ++ [index], builds := s.builds + built }
    (s'.tell (.count s.completers.length), s')

/-- Does steps one after another: the reports of all of them and the session at the end. -/
def run (s : Session) : List Step → List Report × Session
  | [] => ([], s)
  | step :: rest =>
    let first := s.step step
    let others := first.2.run rest
    (first.1 :: others.1, others.2)

end Session

end JvmCompletion
