import JvmCompletion.Descriptor.Open
import JvmCompletion.Names
import JvmCompletion.Text.Opening

/-!
# Selecting candidates

Every completion keeps the candidates that begin with what was typed. The kinds differ in what
becomes of a candidate that is kept:

* class names keep their order, and the name that has been typed in full is not offered again;
* a descriptor is closed over each class name that begins with the name in it;
* signatures of members are sorted.
-/

namespace JvmCompletion

/-- What is looked for among a list of candidates. -/
inductive Selection where
  /-- Class names that go on from the typed one. -/
  | longer (typed : String)
  /-- Ways to close an open descriptor. -/
  | closing (d : OpenDescriptor)
  /-- Signatures that begin as typed. -/
  | signature (typed : String)
  deriving DecidableEq, Repr

/-- The suggestions that a list of candidates holds. -/
def Selection.apply : Selection → List String → List String
  | .longer typed, candidates =>
    candidates.filter fun c => Text.begins typed c && c != typed
  | .closing d, candidates =>
    (candidates.filter fun c => Text.begins d.name c).map d.close
  | .signature typed, candidates =>
    Names.sorted (candidates.filter fun c => Text.begins typed c)

end JvmCompletion
