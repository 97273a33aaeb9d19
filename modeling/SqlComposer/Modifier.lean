/-!
# Markers

A marker is a percent sign and a code. Modifiers choose how the next value is written; keywords steer
the composition itself.

* `Modifier.code`, `Keyword.code` : the code of each marker;
* `Marker.ofCode?` : the marker of a code, some having a second code (`Marker.ofCode?_modifier_code`,
  `Marker.ofCode?_keyword_code`);
* `splitKey` : the column and the modifier code of a mapping key.
-/

namespace SqlComposer

/-- Where a pattern is anchored in the text that it matches. -/
inductive Anchor
  | start
  | finish
  | anywhere
  deriving DecidableEq

/-- How a value is written. -/
inductive Modifier
  /-- A text literal. -/
  | text
  /-- A text literal, `NULL` for empty text. -/
  | textOrNull
  | binary
  | bool
  | int
  /-- Written like `int`. -/
  | unsigned
  /-- An integer, `NULL` for blank text. -/
  | intOrNull
  | float
  | date
  | dateTime
  /-- An identifier in parts, with substitutions. -/
  | identifier
  /-- An identifier in one part. -/
  | rawIdentifier
  /-- SQL text, scanned for quotes, identifiers and substitutions. -/
  | sql
  /-- The elements of a list as tokens. -/
  | expand
  /-- Assignments to columns. -/
  | assign
  /-- Values in parentheses. -/
  | list
  /-- Values in parentheses, `(NULL)` if there are none. -/
  | inList
  /-- Columns and a row of values. -/
  | values
  /-- Columns and any number of rows of values. -/
  | rows
  /-- Columns with directions. -/
  | orderBy
  /-- Conditions that all hold. -/
  | allOf
  /-- Conditions of which one holds. -/
  | anyOf
  /-- A pattern. -/
  | like (anchor : Anchor)
  deriving DecidableEq

/-- What steers the composition. -/
inductive Keyword
  /-- Opens a block. -/
  | ifTrue
  /-- Opens the next branch of a block. -/
  | otherwise
  /-- Closes a block. -/
  | endIf
  /-- Sets the number of rows. -/
  | limit
  /-- Sets the number of rows left out. -/
  | offset
  deriving DecidableEq

/-- The code by which a modifier is named. -/
def Modifier.code : Modifier → String
  | text => "s"
  | textOrNull => "sn"
  | binary => "bin"
  | bool => "b"
  | int => "i"
  | unsigned => "u"
  | intOrNull => "iN"
  | float => "f"
  | date => "d"
  | dateTime => "t"
  | identifier => "n"
  | rawIdentifier => "N"
  | sql => "sql"
  | expand => "ex"
  | assign => "a"
  | list => "l"
  | inList => "in"
  | values => "v"
  | rows => "m"
  | orderBy => "by"
  | allOf => "and"
  | anyOf => "or"
  | like .start => "like~"
  | like .finish => "~like"
  | like .anywhere => "~like~"

/-- The code by which a keyword is named. -/
def Keyword.code : Keyword → String
  | ifTrue => "if"
  | otherwise => "else"
  | endIf => "end"
  | limit => "lmt"
  | offset => "ofs"

/-- The keywords of blocks are known in SQL text only. -/
def Keyword.isConditional : Keyword → Bool
  | ifTrue | otherwise | endIf => true
  | limit | offset => false

/-- What a code stands for. -/
inductive Marker
  | modifier (m : Modifier)
  | keyword (k : Keyword)
  deriving DecidableEq

/-- The marker that a code names, in exactly this case. -/
def Marker.ofCode? : String → Option Marker
  | "if" => some (.keyword .ifTrue)
  | "else" => some (.keyword .otherwise)
  | "end" => some (.keyword .endIf)
  | "lmt" => some (.keyword .limit)
  | "ofs" => some (.keyword .offset)
  | "s" => some (.modifier .text)
  | "sn" | "sN" => some (.modifier .textOrNull)
  | "bin" => some (.modifier .binary)
  | "b" => some (.modifier .bool)
  | "i" => some (.modifier .int)
  | "u" => some (.modifier .unsigned)
  | "iN" => some (.modifier .intOrNull)
  | "f" => some (.modifier .float)
  | "d" => some (.modifier .date)
  | "t" | "dt" => some (.modifier .dateTime)
  | "n" => some (.modifier .identifier)
  | "N" => some (.modifier .rawIdentifier)
  | "sql" | "p" => some (.modifier .sql)
  | "ex" => some (.modifier .expand)
  | "a" => some (.modifier .assign)
  | "l" => some (.modifier .list)
  | "in" => some (.modifier .inList)
  | "v" => some (.modifier .values)
  | "m" => some (.modifier .rows)
  | "by" => some (.modifier .orderBy)
  | "and" => some (.modifier .allOf)
  | "or" => some (.modifier .anyOf)
  | "like~" => some (.modifier (.like .start))
  | "~like" => some (.modifier (.like .finish))
  | "~like~" => some (.modifier (.like .anywhere))
  | _ => none

/-- The modifier that a code names. -/
def Modifier.ofCode? (code : String) : Option Modifier :=
  match Marker.ofCode? code with
  | some (.modifier m) => some m
  | _ => none

/-- The column of a mapping key and, after the first percent sign, its modifier code. -/
def splitKey (key : String) : String × Option String :=
  let isText := fun c : Char => c != '%'
  let column := String.ofList (key.toList.takeWhile isText)
  match key.toList.dropWhile isText with
  | [] => (column, none)
  | _ :: code => (column, some (String.ofList code))

/-! ## Laws -/

@[simp] theorem Marker.ofCode?_modifier_code (m : Modifier) : ofCode? m.code = some (.modifier m) := by
  cases m with
  | like a => cases a <;> rfl
  | _ => rfl

@[simp] theorem Marker.ofCode?_keyword_code (k : Keyword) : ofCode? k.code = some (.keyword k) := by
  cases k <;> rfl

end SqlComposer
