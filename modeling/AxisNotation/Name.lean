import Std.Data.ExtTreeSet

/-!
# Axis names

A legal name starts with a letter or an underscore and goes on with letters, digits and
underscores, all of them ASCII. Names in messages are listed in increasing order without
repetition; `Name.sorted` is that list, and `mem_sorted` says it has the same members.
-/

namespace AxisNotation.Name

/-- The characters that can start a name. -/
def isStart (c : Char) : Bool :=
  c.isAlpha || c == '_'

/-- The characters that can continue a name. -/
def isPart (c : Char) : Bool :=
  c.isAlphanum || c == '_'

/-- A text is a legal name when it is nonempty and each character is allowed at its place. -/
def isLegal (s : String) : Bool :=
  match s.toList with
  | [] => false
  | c :: cs => isStart c && cs.all isPart

/-- The members of a list in increasing order of code points, each once. -/
def sorted (names : List String) : List String :=
  (Std.ExtTreeSet.ofList names).toList

@[simp]
theorem mem_sorted {name : String} {names : List String} : name ∈ sorted names ↔ name ∈ names := by
  simp [sorted]

/-- The sorted list increases strictly. -/
theorem pairwise_sorted (names : List String) :
    (sorted names).Pairwise fun a b => compare a b = .lt :=
  Std.ExtTreeSet.ordered_toList

/-- A character that can start a name can continue one. -/
theorem isPart_of_isStart {c : Char} (h : isStart c) : isPart c := by
  simp only [isStart, isPart, Char.isAlphanum, Bool.or_eq_true] at h ⊢
  exact h.imp_left Or.inl

end AxisNotation.Name
