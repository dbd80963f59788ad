import JvmCompletion.NameIndex
import JvmCompletion.Selection

/-!
# Completing

A request says what kind of symbol is wanted and what has been typed of it; for members it names
the class that owns them. The answer is a list of suggestions, and whatever stands in the way of
one (nothing typed, a descriptor that is closed already, an owner nobody knows) makes it empty.

Class names and descriptors are completed from the index of names, members from the sources as they
are now. `Answer` holds, beside the suggestions, what answering left behind: the index afterwards,
how many lists of names were built, and which classes the runtime was asked for.
-/

namespace JvmCompletion

/-- The four kinds of symbol. -/
inductive Kind where
  | internalName | descriptor | method | field
  deriving DecidableEq, Repr

/-- Every kind. -/
def Kind.all : List Kind := [.internalName, .descriptor, .method, .field]

/-- The word for a kind. -/
def Kind.word : Kind → String
  | .internalName => "internal-name"
  | .descriptor => "descriptor"
  | .method => "method"
  | .field => "field"

/-- The kind with this word, if there is one. -/
def Kind.ofWord? (word : String) : Option Kind := Kind.all.find? fun k => k.word == word

/-- A request for suggestions. -/
structure Request where
  /-- What is to be completed. -/
  kind : Kind
  /-- The class whose members are wanted, if the editor knows it; of no account for class names and
  descriptors. -/
  owner : Option String := none
  /-- What has been typed so far. -/
  typed : String
  deriving DecidableEq, Repr

/-- What a completer answers, and what answering leaves behind. -/
structure Answer where
  /-- The suggestions. -/
  items : List String
  /-- The index of names afterwards. -/
  index : NameIndex
  /-- How many lists of names were built. -/
  builds : Nat := 0
  /-- The binary names that the runtime was asked for. -/
  lookups : List String := []
  deriving DecidableEq, Repr

namespace Completer

/-- What to select among the class names for a text that is to become an internal name: nothing if
it is blank. -/
def longerNames? (typed : String) : Option Selection :=
  if Text.isBlankText typed then none else some (.longer (Text.trim typed))

/-- What to select among the class names for a text that is to become a descriptor: nothing if it
is not an open descriptor. -/
def closedDescriptors? (typed : String) : Option Selection :=
  (OpenDescriptor.read? typed).map .closing

/-- Selects among the class names. Without anything to select the index is left alone. -/
def completeNames (s : Sources) (index : NameIndex) : Option Selection → Answer
  | none => { items := [], index }
  | some selection =>
    { items := selection.apply (index.names s), index := index.refresh s, builds := index.builds s }

/-- Selects among the signatures of the members of a class. Nothing is looked up while the owner or
the typed text is blank; blanks before the typed text do not count, those after it do. -/
def completeMembers (s : Sources) (index : NameIndex) (kind : MemberKind)
    (owner typed : String) : Answer :=
  if Text.isBlankText owner || Text.isBlankText typed then { items := [], index }
  else
    { items := ((s.signatures? owner kind).map
        (Selection.signature (Text.trimStart typed)).apply).getD []
      index
      lookups := s.lookups owner }

/-- Answers a request. A request for members without an owner has a blank one. -/
def complete (s : Sources) (index : NameIndex) (r : Request) : Answer :=
  match r.kind with
  | .internalName => completeNames s index (longerNames? r.typed)
  | .descriptor => completeNames s index (closedDescriptors? r.typed)
  | .method => completeMembers s index .method (r.owner.getD "") r.typed
  | .field => completeMembers s index .field (r.owner.getD "") r.typed

/-- The suggestions for requests made one after another of one completer. -/
def completeAll (s : Sources) : NameIndex → List Request → List (List String)
  | _, [] => []
  | index, r :: rest =>
    let answer := complete s index r
    answer.items :: completeAll s answer.index rest

end Completer

end JvmCompletion
