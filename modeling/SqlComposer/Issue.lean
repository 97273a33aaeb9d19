/-!
# What can go wrong

* `Issue` : a fault of the input; it is noted and shown inside the statement (`Issue.mark`);
* `DialectError` : a dialect cannot write a part of the statement, and there is no statement.
-/

namespace SqlComposer

/-- A fault of the input. -/
inductive Issue
  /-- A quote without a partner. -/
  | aloneQuote
  | unterminatedIdentifier
  | unknownModifier (code : String)
  /-- A marker without a token to take. -/
  | extraModifier (code : String)
  /-- A placeholder without a token to take. -/
  | extraPlaceholder
  /-- A keyword of a block where there is none. -/
  | unexpectedKeyword (code : String)
  /-- A value of this kind cannot be written under the modifier. -/
  | invalidCombination (kind code : String)
  | expectedNumber (text : String)
  | invalidDate (text : String)
  /-- The column has not as many rows as the first. -/
  | unequalRows (column : String)
  | unresolvedSubstitution (name : String)
  deriving DecidableEq

namespace Issue

/-- The wording of an issue. -/
def message : Issue → String
  | aloneQuote => "Alone quote"
  | unterminatedIdentifier => "Unterminated identifier"
  | unknownModifier code => "Unknown modifier %" ++ code
  | extraModifier code => "Extra modifier %" ++ code
  | extraPlaceholder => "Extra placeholder"
  | unexpectedKeyword code => "Unexpected %" ++ code
  | invalidCombination kind code =>
    "Invalid combination of type " ++ kind ++ " and modifier %" ++ code
  | expectedNumber text => "Expected number, '" ++ text ++ "' given"
  | invalidDate text => "Invalid date '" ++ text ++ "'"
  | unequalRows column => "Multi-insert row '" ++ column ++ "' is different"
  | unresolvedSubstitution name => "Unresolved substitution :" ++ name ++ ":"

/-- What stands in the statement in place of the faulty part. -/
def mark (i : Issue) : String :=
  "**" ++ i.message ++ "**"

end Issue

/-- A dialect cannot write something. -/
inductive DialectError
  | notConnected (dialect : String)
  | unsupported (dialect feature : String)
  | other (reason : String)
  deriving DecidableEq

namespace DialectError

/-- The wording of an error. -/
def message : DialectError → String
  | notConnected dialect => "engine '" ++ dialect ++ "' is not connected"
  | unsupported dialect feature => "engine '" ++ dialect ++ "' does not support " ++ feature
  | other reason => "engine error: " ++ reason

end DialectError

end SqlComposer
