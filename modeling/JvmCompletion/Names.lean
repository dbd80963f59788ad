/-!
# Lists of names

Names are ordered by their code points, which is also the order of their UTF-8 encodings byte by
byte. This module holds the sorting of names and the merge of two lists into one sorted list
without repetitions.
-/

namespace JvmCompletion.Names

/-- The names in ascending order, repetitions kept. -/
def sorted (names : List String) : List String := names.mergeSort fun a b => decide (a ≤ b)

@[simp] theorem mem_sorted {name : String} {names : List String} :
    name ∈ sorted names ↔ name ∈ names :=
  List.mem_mergeSort

/-- Sorting only moves names around. -/
theorem sorted_perm (names : List String) : (sorted names).Perm names :=
  List.mergeSort_perm ..

/-- Sorted names ascend. -/
theorem pairwise_sorted (names : List String) : (sorted names).Pairwise (· ≤ ·) := by
  have trans : ∀ a b c : String, decide (a ≤ b) → decide (b ≤ c) → decide (a ≤ c) :=
    fun _ _ _ hab hbc => decide_eq_true
      (String.le_trans (of_decide_eq_true hab) (of_decide_eq_true hbc))
  have total : ∀ a b : String, decide (a ≤ b) || decide (b ≤ a) :=
    fun a b => by simpa using String.le_total a b
  exact (List.pairwise_mergeSort trans total names).imp fun hab => of_decide_eq_true hab

/-- Keeps each name where it occurs for the first time, given the names that have been seen
before. -/
def firstOccurrences (seen : List String) : List String → List String
  | [] => []
  | name :: rest =>
    if name ∈ seen then firstOccurrences seen rest
    else name :: firstOccurrences (name :: seen) rest

/-- The names of both lists in one, each kept where it occurs for the first time. -/
def joined (first second : List String) : List String := firstOccurrences [] (first ++ second)

/-- Leaves out every name that equals the one before it. -/
def withoutRepeats : List String → List String
  | [] => []
  | [name] => [name]
  | name :: next :: rest =>
    if name = next then withoutRepeats (next :: rest)
    else name :: withoutRepeats (next :: rest)

/-- The sorted list of the names that can be completed to: those of the runtime, together with those
resident in a workspace if there is one. -/
def merged (resident : Option (List String)) (loadable : List String) : List String :=
  let all := match resident with
    | some names => joined names loadable
    | none => loadable
  withoutRepeats (sorted all)

end JvmCompletion.Names
