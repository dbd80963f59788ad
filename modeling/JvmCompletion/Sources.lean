import JvmCompletion.ClassPath
import JvmCompletion.Names
import JvmCompletion.Text.Blank
import JvmCompletion.Workspace

/-!
# The sources of symbols

Completion draws on two sources at a time: the class path of the runtime and the workspace that is
active, if one is. The names of both make up the names that can be completed to. The members of a
class are those of the class file in the active workspace; only when that has no class of the name
is the runtime asked, which it is by binary name.
-/

namespace JvmCompletion

/-- What completion can see at one moment. -/
structure Sources where
  /-- The class path of the runtime. -/
  classPath : ClassPath
  /-- The active workspace. -/
  active : Option Workspace

namespace Sources

/-- The identity of the active workspace, `none` while there is none. -/
def identity (s : Sources) : Option WorkspaceId := s.active.map Workspace.id

/-- The names of all classes in sight, sorted and each once. -/
def classNames (s : Sources) : List String :=
  Names.merged (s.active.map Workspace.residentNames) s.classPath.names

/-- The class file that the active workspace holds under a name. -/
def resident? (s : Sources) (name : String) : Option ClassFile :=
  s.active.bind fun w => w.class? name

/-- The binary names that the runtime is asked for when the members of `owner` are wanted: the one
of `owner`, unless `owner` is blank or the active workspace has the class. -/
def lookups (s : Sources) (owner : String) : List String :=
  let name := Text.trim owner
  if Text.isBlankText owner then []
  else if (s.resident? name).isSome then []
  else [ClassName.toBinary name]

/-- The signatures of the members of `owner`, blanks at its edges aside; `none` if it is blank or
neither source has the class. -/
def signatures? (s : Sources) (owner : String) (kind : MemberKind) : Option (List String) :=
  let name := Text.trim owner
  if Text.isBlankText owner then none
  else match s.resident? name with
    | some c => some (c.signatures kind)
    | none => (s.classPath.load? (ClassName.toBinary name)).map (·.signatures kind)

end Sources

end JvmCompletion
