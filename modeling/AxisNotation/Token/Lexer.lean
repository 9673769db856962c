import AxisNotation.Error
import AxisNotation.Text.Blank
import AxisNotation.Token

/-!
# Reading tokens

`Token.scan` cuts a pattern into tokens. At each place the rest of the text starts with a blank
character, with a token, or with a fault (`Lexeme.read`), and every one of these takes at least one
character. Positions count characters.
-/

namespace AxisNotation

/-- What a text can start with. -/
inductive Lexeme where
  | blank
  | token (kind : TokenKind) (width : Nat)
  | fault (cause : SyntaxCause) (width : Nat)
  deriving DecidableEq, Repr

namespace Lexeme

/-- The longest start of a text that could belong to one name. -/
def word (text : List Char) : String :=
  String.ofList (text.takeWhile Name.isPart)

/-- What the text `c :: rest` starts with. Dots are taken as one run, names and digits as one
word. -/
def read (c : Char) (rest : List Char) : Lexeme :=
  if Text.isBlank c then .blank
  else if c = '(' then .token .opening 1
  else if c = ')' then .token .closing 1
  else if c = '.' then
    let run := 1 + (rest.takeWhile (· = '.')).length
    if run = 3 then .token .ellipsis 3 else .fault (.dots run) run
  else if c = '-' then
    if rest.head? = some '>' then .token .arrow 2 else .fault .hyphen 1
  else if c.isDigit then
    let literal := word (c :: rest)
    if literal = "1" then .token .unit 1 else .fault (.literal literal) literal.length
  else if Name.isStart c then
    let name := word (c :: rest)
    .token (.name name) name.length
  else .fault (.character c) 1

end Lexeme

namespace Token

/-- The tokens of the characters `text`, of which the first stands at `position` of the pattern. -/
def scanFrom (pattern : String) (position : Nat) : List Char → Except PatternError (List Token)
  | [] => .ok []
  | c :: rest =>
    match Lexeme.read c rest with
    | .blank => scanFrom pattern (position + 1) rest
    | .token kind width =>
      (⟨kind, .ofWidth position width⟩ :: ·) <$>
        scanFrom pattern (position + width) (rest.drop (width - 1))
    | .fault cause width => .error (.parse pattern cause (.ofWidth position width))
termination_by text => text.length
decreasing_by all_goals simp only [List.length_cons, List.length_drop]; omega

/-- The tokens of a pattern, or its first fault from the left. -/
def scan (pattern : String) : Except PatternError (List Token) :=
  scanFrom pattern 0 pattern.toList

end Token

end AxisNotation
