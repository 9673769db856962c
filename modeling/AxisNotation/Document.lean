import AxisNotation.Shape

/-!
# Documents

A document is a value in a self-describing format of nulls, truth values, numbers, texts, lists and
records. Patterns, plans and configurations are stored as documents.

A structure is a record with one field for each of its parts; fields that do not belong to it are
passed over, and it can also be read from the list of its parts in order. A case of an enumeration
is the text of its name if it carries nothing, and otherwise a record with one field of that name.
-/

namespace AxisNotation

/-- A self-describing value. -/
inductive Document where
  | null
  | bool (value : Bool)
  /-- The number `mantissa * 10 ^ (-places)`. -/
  | number (mantissa : Int) (places : Nat)
  | text (value : String)
  | list (items : List Document)
  | record (fields : List (String × Document))
  deriving Inhabited

namespace Document

/-- The document of a size. -/
def ofNat (n : Nat) : Document :=
  .number n 0

/-- The document of a list of sizes. -/
def ofNats (ns : List Nat) : Document :=
  .list (ns.map ofNat)

/-- The document of a list of texts. -/
def ofTexts (texts : List String) : Document :=
  .list (texts.map .text)

/-- The document of a value that may be absent. -/
def ofOption {α : Type} (encode : α → Document) : Option α → Document
  | some a => encode a
  | none => .null

/-- The document of a case that carries a payload. -/
def ofCase (name : String) (payload : Document) : Document :=
  .record [(name, payload)]

/-- A size: a natural number of at most 64 bits. -/
def nat? : Document → Option Nat
  | .number (.ofNat n) 0 => if n ≤ Shape.sizeLimit then some n else none
  | _ => none

/-- A truth value. -/
def bool? : Document → Option Bool
  | .bool b => some b
  | _ => none

/-- A text. -/
def text? : Document → Option String
  | .text s => some s
  | _ => none

/-- A list. -/
def list? : Document → Option (List Document)
  | .list items => some items
  | _ => none

/-- A record. -/
def record? : Document → Option (List (String × Document))
  | .record fields => some fields
  | _ => none

/-- A list of sizes. -/
def nats? (d : Document) : Option (List Nat) := do
  (← d.list?).mapM nat?

/-- A value that may be absent. -/
def option? {α : Type} (decode : Document → Option α) : Document → Option (Option α)
  | .null => some none
  | d => (decode d).map some

/-- The parts of a structure whose parts have the given names. -/
def parts? (names : List String) : Document → Option (List (String × Document))
  | .record fields => some fields
  | .list items => if items.length ≤ names.length then some (names.zip items) else none
  | _ => none

/-- The name of a case and its payload, if it has one. -/
def case? : Document → Option (String × Document)
  | .text name => some (name, .null)
  | .record [(name, payload)] => some (name, payload)
  | _ => none

/-- The case of an enumeration in which no case carries anything. -/
def choice? {α : Type} (choices : List (String × α)) (d : Document) : Option α :=
  match d.case? with
  | some (name, .null) => choices.lookup name
  | _ => none

/-- The part of the given name, decoded. -/
def part? {α : Type} (parts : List (String × Document)) (name : String)
    (decode : Document → Option α) : Option α :=
  (parts.lookup name).bind decode

/-- The part of the given name, decoded, or a value to use where it is missing. -/
def partOr? {α : Type} (parts : List (String × Document)) (name : String) (missing : α)
    (decode : Document → Option α) : Option α :=
  match parts.lookup name with
  | some part => decode part
  | none => some missing

end Document

end AxisNotation
