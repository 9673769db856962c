import AxisNotation.Pattern.Parser
import Std.Data.ExtTreeMap

/-!
# Pattern caches

A cache keeps patterns that have been read under their texts. What it has kept it never replaces,
and once it is full it keeps nothing more. Every successful reading of a text gets a number of its
own, so that two results with one number are one and the same object.
-/

namespace AxisNotation

/-- A pattern and the number of the reading that made it. -/
structure Reading where
  pattern : Pattern
  number : Nat

/-- The patterns kept so far. -/
structure Cache where
  /-- The largest number of entries; zero stands for no bound. -/
  capacity : Nat
  entries : Std.ExtTreeMap String Reading
  /-- How many texts have been read with success. -/
  readings : Nat

namespace Cache

/-- The cache without entries. -/
def empty (capacity : Nat) : Cache :=
  ⟨capacity, ∅, 0⟩

/-- The number of entries. -/
def size (c : Cache) : Nat :=
  c.entries.size

/-- Whether there are no entries. -/
def isEmpty (c : Cache) : Bool :=
  c.entries.isEmpty

/-- Whether a text has an entry. -/
def contains (c : Cache) (text : String) : Bool :=
  c.entries.contains text

/-- Whether another entry can be kept. -/
def hasRoom (c : Cache) : Bool :=
  c.capacity = 0 || c.size < c.capacity

/-- The cache without its entries. -/
def clear (c : Cache) : Cache :=
  ⟨c.capacity, ∅, c.readings⟩

/-- The pattern of a text. It is taken from the cache if it is there; otherwise it is read, and kept
if there is room. A text that cannot be read leaves the cache as it is. -/
def get (c : Cache) (text : String) : Except PatternError Reading × Cache :=
  match c.entries[text]? with
  | some reading => (.ok reading, c)
  | none =>
    match Pattern.parse text with
    | .error e => (.error e, c)
    | .ok pattern =>
      let reading := ⟨pattern, c.readings⟩
      let entries := if c.hasRoom then c.entries.insert text reading else c.entries
      (.ok reading, ⟨c.capacity, entries, c.readings + 1⟩)

end Cache

end AxisNotation
