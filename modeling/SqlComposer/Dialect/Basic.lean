import SqlComposer.Dialect.Literal
import SqlComposer.Dialect.RowBounds
import SqlComposer.Issue

/-!
# Dialects

* `Dialect` : how a database writes identifiers, literals, patterns and row bounds; each part may fail;
* `Kind.dialect` : the known dialects, which never fail.
-/

namespace SqlComposer

/-- How a database writes the parts of a statement. -/
structure Dialect where
  name : String
  /-- The quotes around an identifier. -/
  quotes : Char × Char
  identifier : String → Except DialectError String
  text : String → Except DialectError String
  binary : List UInt8 → Except DialectError String
  bool : Bool → String
  date : Date → Except DialectError String
  dateTime : DateTime → Except DialectError String
  /-- The operand of `LIKE` that matches a text as it stands at the anchor. -/
  like : Anchor → String → Except DialectError String
  /-- A finished statement with row bounds. -/
  bounded : RowBounds → String → Except DialectError String

namespace Dialect

/-- The dialect of a known database. -/
def Kind.dialect (k : Kind) : Dialect where
  name := k.name
  quotes := k.quotes
  identifier s := .ok (String.ofList (k.identifier s.toList))
  text s := .ok (String.ofList (k.text s.toList))
  binary bytes := .ok (String.ofList (k.binary bytes))
  bool b := String.ofList (k.bool b)
  date d := .ok (String.ofList (k.date d))
  dateTime t := .ok (String.ofList (k.dateTime t))
  like a s := .ok (String.ofList (k.like a s.toList))
  bounded b sql := .ok (String.ofList (k.bounded b sql.toList))

end Dialect

end SqlComposer
