/-!
# Configurations

The choices that a user of an engine has.
-/

namespace AxisNotation

/-- How an engine works. -/
structure Config where
  /-- Whether patterns are kept once they have been read. -/
  useCache : Bool
  /-- The largest number of patterns that are kept; zero stands for no bound. -/
  capacity : Nat
  /-- Whether explicit sizes are allowed only for names of the pattern. -/
  strict : Bool
  deriving DecidableEq, Repr

namespace Config

/-- Patterns are kept without bound and foreign sizes are refused. -/
def standard : Config :=
  ⟨true, 0, true⟩

/-- Patterns are kept without bound and foreign sizes are ignored. -/
def fast : Config :=
  ⟨true, 0, false⟩

/-- Patterns are not kept and foreign sizes are refused. -/
def safe : Config :=
  ⟨false, 0, true⟩

instance : Inhabited Config :=
  ⟨standard⟩

end Config

end AxisNotation
